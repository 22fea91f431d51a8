import MultiAi.Terms.Provenance

/-! # The trouble of one terminal

While the connection is alive, a terminal that is attached is to stay so, whatever happens to the
others. It does, unless one of them cannot attach again.
-/

namespace MultiAi.Terms

open Std

/-- The transport is asked whether it is alive, and is not. -/
def FindsDead (s : Terms) (turn : Turn) : Prop :=
  s.pending = [] ∧ ∃ id p g, turn.wake = .output id g none false ∧ s.Holds id p g

/-- The outputs with this tag end. -/
def OutputEnds (s : Terms) (turn : Turn) (id g : ℕ) : Prop :=
  s.pending = [] ∧ ∃ o alive, turn.wake = .output id g o alive ∧ ∀ d, o ≠ some (.data d)

/-- After `before`, the connection stays alive: a terminal that attaches then keeps its PTY and is
not told of a detach, unless it is closed or its outputs end. -/
def Untroubled (cfg : HostConfig) (before later : List Turn) : Prop :=
  (∀ pre turn post, later = pre ++ turn :: post → ¬(run cfg (before ++ pre)).FindsDead turn) →
  (run cfg (before ++ later)).ended = false →
  ∀ mid p id g spec post, (run cfg (before ++ later)).log =
      (run cfg before).log ++ (mid ++ .created p id g spec :: post) →
    .handled (.close id) ∉ mid ++ post →
    (∀ pre turn post, later = pre ++ turn :: post →
      ¬(run cfg (before ++ pre)).OutputEnds turn id g) →
    (run cfg (before ++ later)).Holds id p g ∧ ∀ reason, .owner id (.detached reason) ∉ post

/-- The slot of a terminal whose channel ends in a turn while the connection is alive. -/
def channelEnd (s : Terms) (turn : Turn) (id : ℕ) : Option Slot :=
  match s.pending, turn.wake with
  | [], .output id' g none true =>
    if id' = id ∧ s.link = .up then
      (s.slot id).filter fun slot => slot.generation = g ∧ slot.pty.isSome
    else none
  | _, _ => none

/-- The quick ends in a row after a turn. -/
def rowAfter (s : Terms) (turn : Turn) (id row : ℕ) : ℕ :=
  match s.channelEnd turn id with
  | some slot => if s.now + turn.elapsed - slot.attachedAt < stableAfter then row + 1 else 0
  | none => row

/-- The channel of a terminal ended that often in a row soon after it attached. -/
def quickRow (cfg : HostConfig) (id : ℕ) (turns : List Turn) : ℕ :=
  (turns.foldl (fun x turn => (x.1.step turn, x.1.rowAfter turn id x.2)) (init cfg, 0)).2

/-- A terminal is given up on at the third quick end in a row. -/
def GivenUp (cfg : HostConfig) (turns : List Turn) : Prop :=
  (run cfg turns).ended = false → ∀ id,
    (∀ slot, (run cfg turns).slot id = some slot → quickRow cfg id turns < maxQuickEnds) ∧
    ∀ turn slot, (run cfg turns).channelEnd turn id = some slot →
      maxQuickEnds ≤ (run cfg turns).rowAfter turn id (quickRow cfg id turns) →
      .owner id (.exited none) ∈ ((run cfg turns).step turn).log ∧
        ((run cfg turns).step turn).slot id = none

/-- Of two terminals the channel of one ends, and it cannot attach again. -/
def failedTurns : List Turn := [
  ⟨0, .command (some (.open ⟨"a", false, ⟨80, 24⟩⟩ 7)),
    [⟨[], 5, none, some (.ok ())⟩, ⟨[], 5, none, some (.ok ())⟩], id, List.Perm.refl⟩,
  ⟨0, .command (some (.open ⟨"b", false, ⟨80, 24⟩⟩ 8)), [⟨[], 5, none, some (.ok ())⟩],
    id, List.Perm.refl⟩,
  ⟨40000, .output 1 0 none true, [⟨[], 5, none, some (.error (.retry "no session"))⟩],
    id, List.Perm.refl⟩]

/-- The terminal attaches again. -/
def recoveredTurn : Turn :=
  ⟨40000, .output 1 0 none true, [⟨[], 5, none, some (.ok ())⟩], id, List.Perm.refl⟩

theorem not_untroubled_failed :
    ¬∀ (cfg : HostConfig) (before later : List Turn),
      Untroubled cfg before later ∧ GivenUp cfg (before ++ later) := by
  intro h
  have huntroubled := (h ⟨"h", .localHost, none⟩ [] failedTurns).1
  have hwakes : ∀ pre turn post, failedTurns = pre ++ turn :: post →
      (∀ id g, turn.wake ≠ .output id g none false) ∧
        ∀ g o alive, turn.wake ≠ .output 2 g o alive := by
    intro pre turn post hcut
    have hmem : turn ∈ failedTurns := by
      rw [hcut]
      simp
    simp only [failedTurns, List.mem_cons, List.not_mem_nil, or_false] at hmem
    rcases hmem with rfl | rfl | rfl <;> simp
  have hport : port (run ⟨"h", .localHost, none⟩ failedTurns).log 1 = some (2, 0) := by decide
  have hclosed : TermCmd.close 2 ∉ handledCmds (run ⟨"h", .localHost, none⟩ failedTurns).log := by
    decide
  have hslot : ((run ⟨"h", .localHost, none⟩ failedTurns).slot 2).map (·.pty) = some none := by
    decide
  obtain ⟨spec, hcreated⟩ := port_created hport
  obtain ⟨mid, post, hlog⟩ := List.append_of_mem hcreated
  have hdead : ∀ pre turn post, failedTurns = pre ++ turn :: post →
      ¬(run ⟨"h", .localHost, none⟩ ([] ++ pre)).FindsDead turn := by
    rintro pre turn post hcut ⟨-, id, p, g, hw, -⟩
    exact (hwakes pre turn post hcut).1 id g hw
  have hends : ∀ pre turn post, failedTurns = pre ++ turn :: post →
      ¬(run ⟨"h", .localHost, none⟩ ([] ++ pre)).OutputEnds turn 2 0 := by
    rintro pre turn post hcut ⟨-, o, alive, hw, -⟩
    exact (hwakes pre turn post hcut).2 0 o alive hw
  have hopen : .handled (.close 2) ∉ mid ++ post := by
    intro hm
    refine hclosed (mem_handledCmds.mpr ?_)
    rw [hlog]
    simpa using hm
  obtain ⟨⟨slot, hs, hp, -⟩, -⟩ :=
    huntroubled hdead (by decide) mid 1 2 0 spec post hlog hopen hends
  have hs' : (run ⟨"h", .localHost, none⟩ failedTurns).slot 2 = some slot := hs
  rw [hs'] at hslot
  simp [hp] at hslot

/-- The connection is up while a terminal is attached, but for an attach that is under way. -/
structure Steady (d : Doing) (s : Terms) : Prop where
  up : d ≠ .stopped → d.flight = .none → ¬s.AllDetached → s.link = .up
  failed : d.flight = .failed → s.AllDetached

/-- Since `base`, every terminal that attached is attached still, unless it was closed or its
outputs ended. -/
def Unhurt (base : List TermEffect) (E : ℕ → ℕ → Prop) (d : Doing) (s : Terms) : Prop :=
  ∃ new, s.log = base ++ new ∧
    (∀ id g, d.flight = .again id g →
      (∃ slot, s.slot id = some slot) ∨ .handled (.close id) ∈ new) ∧
    ∀ mid p id g spec post, new = mid ++ .created p id g spec :: post →
      .handled (.close id) ∉ new → ¬E id g →
        s.Holds id p g ∧ ∀ reason, .owner id (.detached reason) ∉ post

variable {cfg : HostConfig} {base add : List TermEffect} {E : ℕ → ℕ → Prop} {d d' : Doing}
  {s s' : Terms} {w : Option Wake} {fails : Prop} {a b : Doing × Terms} {id : ℕ}

theorem AllDetached.of_found (h : s.AllDetached)
    (hslots : ∀ id slot', s'.slot id = some slot' →
      ∃ slot, s.slot id = some slot ∧ (slot'.pty = none ∨ slot'.pty = slot.pty)) :
    s'.AllDetached := by
  intro id slot' hs
  obtain ⟨slot, hs, hnone | hpty⟩ := hslots id slot' hs
  · exact hnone
  · exact hpty.trans (h id slot hs)

theorem AllDetached.not_holds {p g : ℕ} (h : s.AllDetached) : ¬s.Holds id p g := by
  rintro ⟨slot, hs, hp, -⟩
  rw [h id slot hs] at hp
  cases hp

theorem Steady.frame {v v' : Option ℕ} {f : Flight} (h : Steady (.work v f) s)
    (hlink : s'.link = s.link)
    (hslots : ∀ id slot', s'.slot id = some slot' →
      ∃ slot, s.slot id = some slot ∧ (slot'.pty = none ∨ slot'.pty = slot.pty)) :
    Steady (.work v' f) s' := by
  refine ⟨fun _ hf hatt => ?_, fun hf => (h.failed hf).of_found hslots⟩
  rw [hlink]
  exact h.up nofun hf fun hd => hatt (hd.of_found hslots)

theorem Steady.of_up {v : Option ℕ} (hlink : s.link = .up) : Steady (.work v .none) s :=
  ⟨fun _ _ _ => hlink, nofun⟩

theorem Steady.of_detached {v : Option ℕ} (hd : s.AllDetached) : Steady (.work v .none) s :=
  ⟨fun _ _ hatt => absurd hd hatt, nofun⟩

theorem same_slots (s : Terms) : ∀ id slot', s.slot id = some slot' →
    ∃ slot, s.slot id = some slot ∧ (slot'.pty = none ∨ slot'.pty = slot.pty) :=
  fun _ slot hs => ⟨slot, hs, Or.inr rfl⟩

theorem Steady.move (hfails : ¬fails) (hm : Move fails w a b) (h : Steady a.1 a.2) :
    Steady b.1 b.2 := by
  cases hm with
  | waits script now => exact h.frame rfl (same_slots _)
  | stops => exact ⟨fun hd => absurd rfl hd, nofun⟩
  | @handles v f s cmd =>
    have hc := handles_doLocal s cmd
    refine h.frame hc.link fun id slot' hs => ?_
    obtain ⟨slot, hs, hsame⟩ := hc.found id slot' hs
    exact ⟨slot, hs, Or.inr hsame.pty⟩
  | takes hp => exact h.frame rfl (same_slots _)
  | pops hp => exact h.frame rfl (same_slots _)
  | dials => exact h.frame rfl (same_slots _)
  | connects hd => exact .of_up rfl
  | rests hd hup hbusy => exact .of_detached hd
  | @loses v f s reason hf =>
    refine .of_detached fun id slot' hs => ?_
    obtain ⟨slot, -, rfl⟩ := slot_map_detach (s := s) rfl hs
    rfl
  | attachesAgain hl hs hp => exact ⟨nofun, nofun⟩
  | attachesNew hl => exact ⟨nofun, nofun⟩
  | failsAgain hf => exact ⟨nofun, fun _ => hf.resolve_left hfails⟩
  | failsNew => exact .of_up rfl
  | @attachedAgain v s id g spec =>
    rcases attachedAgain_cases s id g spec with ⟨slot, hs, heq⟩ | ⟨hs, heq⟩
    · rw [heq]
      exact .of_up rfl
    · rw [heq]
      exact .of_up rfl
  | attachedNew => exact ⟨fun _ _ _ => rfl, nofun⟩
  | refuses => exact ⟨fun _ _ hatt => h.up nofun rfl hatt, nofun⟩
  | delivers hw => exact h.frame rfl (same_slots _)
  | exits hw =>
    refine h.frame rfl fun id slot' hs => ?_
    rw [slot_dropSlot] at hs
    split_ifs at hs
    exact ⟨slot', hs, Or.inr rfl⟩
  | givesUp hw hl hq => exact .of_up hl
  | closes hw hl hq => exact .of_up hl

/-- A move that creates no PTY. -/
theorem Unhurt.frame (h : Unhurt base E d s) (hlog : s'.log = s.log ++ add)
    (hcreated : ∀ p id g spec, .created p id g spec ∉ add)
    (hkeeps : ∀ id p g, s.Holds id p g → ¬E id g → .handled (.close id) ∉ add →
      s'.Holds id p g ∧ ∀ reason, .owner id (.detached reason) ∉ add)
    (hagain : ∀ id g, d'.flight = .again id g → (∃ slot', s'.slot id = some slot') ∨
      d.flight = .again id g ∧ ∀ slot, s.slot id = some slot →
        (∃ slot', s'.slot id = some slot') ∨ .handled (.close id) ∈ add) :
    Unhurt base E d' s' := by
  obtain ⟨new, hnew, hflight, hold⟩ := h
  refine ⟨new ++ add, by rw [hlog, hnew, List.append_assoc], fun id g hf => ?_, ?_⟩
  · rcases hagain id g hf with hsome | ⟨hf, hslot⟩
    · exact Or.inl hsome
    · rcases hflight id g hf with ⟨slot, hs⟩ | hclosed
      · exact (hslot slot hs).imp_right (List.mem_append_right _)
      · exact Or.inr (List.mem_append_left _ hclosed)
  · intro mid p id g spec post hcut hclosed hend
    rcases Log.append_eq_cut.mp hcut with ⟨mid', hmid, rfl⟩ | ⟨mid', -, hadd⟩
    · obtain ⟨hh, hnone⟩ := hold mid p id g spec mid' hmid
        (fun hm => hclosed (List.mem_append_left _ hm)) hend
      obtain ⟨hh', hnone'⟩ := hkeeps id p g hh hend fun hm => hclosed (List.mem_append_right _ hm)
      refine ⟨hh', fun reason hm => ?_⟩
      rcases List.mem_append.mp hm with hm | hm
      · exact hnone reason hm
      · exact hnone' reason hm
    · exact absurd (hadd ▸ List.mem_append_right _ List.mem_cons_self) (hcreated p id g spec)

/-- A new PTY for a terminal that has none. -/
theorem Unhurt.creates {g : ℕ} {spec : AttachSpec} (h : Unhurt base E d s)
    (hc : Creates s s' id g spec add) (hfree : ∀ p g, ¬s.Holds id p g)
    (hgone : s.slot id = none → ∀ new, s.log = base ++ new → .handled (.close id) ∈ new ∨
      ∃ slot, s'.slot id = some slot)
    (hflight : d'.flight = .none) : Unhurt base E d' s' := by
  obtain ⟨hlog, -, hothers, hlanded⟩ := hc
  have hquiet : ∀ id reason, .owner id (.detached reason) ∉ add := by
    rintro id' reason hm
    rcases hlanded.mem hm with hx | ⟨_, _, hx⟩ | hx <;> cases hx
  obtain ⟨new, hnew, -, hold⟩ := h
  refine ⟨new ++ .created s.nextPty id g spec :: add, by rw [hlog, hnew, List.append_assoc],
    fun id g hf => ?_, ?_⟩
  · rw [hflight] at hf
    cases hf
  · intro mid p' id' g' spec' post hcut hclosed hend
    rcases Log.append_cons_eq_cut.mp hcut with ⟨mid', hmid, rfl⟩ | ⟨-, heq, rfl⟩ | ⟨mid', -, hadd⟩
    · obtain ⟨hh, hnone⟩ := hold mid p' id' g' spec' mid' hmid
        (fun hm => hclosed (List.mem_append_left _ hm)) hend
      have he : id ≠ id' := fun e => hfree p' g' (e ▸ hh)
      obtain ⟨slot, hs, hh⟩ := hh
      refine ⟨⟨slot, (hothers id' he).trans hs, hh⟩, fun reason hm => ?_⟩
      rcases List.mem_append.mp hm with hm | hm
      · exact hnone reason hm
      · rcases List.mem_cons.mp hm with heq | hm
        · cases heq
        · exact hquiet id' reason hm
    · cases heq
      cases hlanded with
      | held hs hp hg _ => exact ⟨⟨_, hs, hp, hg⟩, hquiet id⟩
      | closed hs hs' =>
        rcases hgone hs new hnew with hclose | ⟨slot, hslot⟩
        · exact absurd (List.mem_append_left _ hclose) hclosed
        · cases hs'.symm.trans hslot
    · have hmem : .created p' id' g' spec' ∈ add := hadd ▸ List.mem_append_right _ List.mem_cons_self
      rcases hlanded.mem hmem with hx | ⟨_, _, hx⟩ | hx <;> cases hx

/-- A move that changes no slot. -/
theorem Unhurt.still (h : Unhurt base E d s) (hlog : s'.log = s.log ++ add)
    (hcreated : ∀ p id g spec, .created p id g spec ∉ add)
    (hquiet : ∀ id reason, .owner id (.detached reason) ∉ add) (hslots : s'.slots = s.slots)
    (hagain : ∀ id g, d'.flight = .again id g →
      (∃ slot, s.slot id = some slot) ∨ d.flight = .again id g) : Unhurt base E d' s' := by
  have hslot : ∀ id, s'.slot id = s.slot id := fun id => by rw [slot, slot, hslots]
  refine h.frame hlog hcreated (fun id p g hh _ _ => ⟨?_, hquiet id⟩) fun id g hf => ?_
  · obtain ⟨slot, hs, hh⟩ := hh
    exact ⟨slot, (hslot id).trans hs, hh⟩
  · rw [hslot]
    exact (hagain id g hf).imp_right fun hf => ⟨hf, fun slot hs => Or.inl ⟨slot, hs⟩⟩

/-- The outputs of a terminal end: the others keep their PTYs. -/
theorem Unhurt.ends {e : TermEvent} {slot : Slot} (h : Unhurt base E d s)
    (hs : s.slot id = some slot) (hend : E id slot.generation)
    (hlog : s'.log = s.log ++ [.owner id e]) (hothers : ∀ id', id ≠ id' → s'.slot id' = s.slot id')
    (hflight : d'.flight = .none) : Unhurt base E d' s' := by
  refine h.frame hlog (by simp) (fun id' p g hh hend' _ => ?_) fun id' g hf => ?_
  · have he : id ≠ id' := by
      rintro rfl
      obtain ⟨slot', hs', -, rfl⟩ := hh
      cases hs.symm.trans hs'
      exact hend' hend
    obtain ⟨slot', hs', hh⟩ := hh
    refine ⟨⟨slot', (hothers id' he).trans hs', hh⟩, fun reason hm => ?_⟩
    cases List.mem_singleton.mp hm
    exact he rfl
  · rw [hflight] at hf
    cases hf

theorem Unhurt.handles (h : Unhurt base E d s) (cmd : TermCmd)
    (hf : d'.flight = d.flight ∨ d'.flight = .none) : Unhurt base E d' (s.doLocal cmd) := by
  have hc := handles_doLocal s cmd
  obtain ⟨sent, hlog, hsent, -⟩ := hc.log
  refine h.frame hlog (fun p id g spec hm => ?_)
    (fun id p g hh _ hclose => ⟨?_, fun reason hm => ?_⟩) fun id g hg => ?_
  · rcases List.mem_cons.mp hm with heq | hm
    · cases heq
    · obtain ⟨p', msg, heq⟩ := hsent _ hm
      cases heq
  · obtain ⟨slot, hs, hp, hg⟩ := hh
    have hne : cmd ≠ .close id := by
      rintro rfl
      exact hclose List.mem_cons_self
    obtain ⟨slot', hs', hsame⟩ := hc.kept id slot hs hne
    exact ⟨slot', hs', hsame.pty.trans hp, hsame.generation.trans hg⟩
  · rcases List.mem_cons.mp hm with heq | hm
    · cases heq
    · obtain ⟨p', msg, heq⟩ := hsent _ hm
      cases heq
  · rcases hf with hf | hf <;> rw [hf] at hg
    · refine Or.inr ⟨hg, fun slot hs => ?_⟩
      by_cases hcmd : cmd = .close id
      · exact Or.inr (hcmd ▸ List.mem_cons_self)
      · obtain ⟨slot', hs', -⟩ := hc.kept id slot hs hcmd
        exact Or.inl ⟨slot', hs'⟩
    · cases hg

theorem Unhurt.move (halive : ∀ id g, w ≠ some (.output id g none false))
    (hends : ∀ id g o alive, w = some (.output id g o alive) → (∀ d, o ≠ some (.data d)) → E id g)
    (hm : Move fails w a b) (hids : Ids a.1 a.2) (hptys : Ptys a.1 a.2) (hsteady : Steady a.1 a.2)
    (h : Unhurt base E a.1 a.2) : Unhurt base E b.1 b.2 := by
  cases hm with
  | waits script now =>
    exact h.still (List.append_nil _).symm nofun nofun rfl fun _ _ hf => Or.inr hf
  | stops => exact h.handles .stop (Or.inr rfl)
  | handles cmd => exact h.handles cmd (Or.inl rfl)
  | takes hp => exact h.still rfl (by simp) (by simp) rfl nofun
  | pops hp => exact h.still (List.append_nil _).symm nofun nofun rfl nofun
  | dials => exact h.still rfl (by simp) (by simp) rfl nofun
  | connects hd => exact h.still rfl (by simp) (by simp) rfl nofun
  | rests hd hup hbusy => exact h.still rfl (by simp) (by simp) rfl nofun
  | @loses v f s reason hf =>
    -- Nothing is attached any more, or the connection is up and alive.
    have hd : s.AllDetached := by
      rcases hf with rfl | ⟨rfl, id, slot, alive, hheard, hdead⟩
      · exact hsteady.failed rfl
      · by_contra hatt
        refine hdead ⟨hsteady.up nofun rfl hatt, ?_⟩
        cases alive with
        | true => rfl
        | false => exact absurd hheard.wake (halive _ _)
    exact h.frame rfl (by simp) (fun id p g hh => absurd hh hd.not_holds) nofun
  | @attachesAgain v s id slot zellij hl hs hp =>
    refine h.still rfl (by simp) (by simp) rfl ?_
    rintro id' g ⟨⟩
    exact Or.inl ⟨slot, hs⟩
  | attachesNew hl => exact h.still (List.append_assoc ..) (by simp) (by simp) rfl nofun
  | failsAgain hf => exact h.still (List.append_nil _).symm nofun nofun rfl nofun
  | failsNew => exact h.still (List.append_nil _).symm nofun nofun rfl nofun
  | @attachedAgain v s id g spec =>
    have hfree : ∀ p g, ¬s.Holds id p g := by
      rintro p g' ⟨slot, hs, hp, -⟩
      rw [hptys.again id g rfl slot hs] at hp
      cases hp
    obtain ⟨new, hc, -⟩ := creates_again s id g spec
    refine h.creates hc hfree (fun hs new hnew => Or.inl ?_) rfl
    obtain ⟨new', hnew', hflight, -⟩ := h
    obtain rfl := List.append_cancel_left (hnew.symm.trans hnew')
    rcases hflight id g rfl with ⟨slot, hs'⟩ | hclosed
    · cases hs.symm.trans hs'
    · exact hclosed
  | @attachedNew reply s id spec =>
    obtain ⟨-, hnone, -⟩ := hids.new id spec rfl
    refine h.creates (creates_new s id spec reply) ?_
      (fun _ _ _ => Or.inr ⟨_, (slot_setSlot ..).trans (if_pos rfl)⟩) rfl
    rintro p g ⟨slot, hs, -⟩
    cases hnone.symm.trans hs
  | refuses => exact h.still rfl (by simp) (by simp) rfl nofun
  | delivers hw => exact h.still rfl (by simp) (by simp) rfl nofun
  | exits hw =>
    refine h.ends hw.found (hends _ _ _ _ hw.wake (by simp)) rfl (fun id' he => ?_) rfl
    rw [slot_dropSlot, if_neg he, slot_note]
  | givesUp hw hl hq =>
    refine h.ends hw.found (hends _ _ _ _ hw.wake (by simp)) rfl (fun id' he => ?_) rfl
    rw [slot_dropSlot, if_neg he, slot_note]
  | closes hw hl hq =>
    refine h.ends hw.found (hends _ _ _ _ hw.wake (by simp)) rfl (fun id' he => ?_) rfl
    rw [slot_note, slot_setSlot, if_neg he]

section Runs

theorem Shaped.steady (hs : s.Shaped) : Steady .top s := by
  refine ⟨fun _ _ hatt => ?_, nofun⟩
  obtain ⟨sh, hsh⟩ := hs
  cases sh with
  | idle => exact absurd (allDetached_of_empty hsh.2.1) hatt
  | up => exact hsh.1
  | down => exact absurd hsh.2.2.1 hatt

/-- A turn in which the connection stays alive and every terminal attaches again. -/
theorem Unhurt.turn (turn : Turn) (hs : s.Shaped) (he : s.ended = false) (hids : Ids .top s)
    (hptys : Ptys .top s) (hfails : ¬s.reattachFails turn) (hdead : ¬s.FindsDead turn)
    (hends : ∀ id g, s.OutputEnds turn id g → E id g) (hgoes : (s.step turn).ended = false)
    (h : Unhurt base E .top s) : Unhurt base E .top (s.step turn) := by
  by_cases halive : ∀ id g, s.woken turn ≠ some (.output id g none false)
  · obtain ⟨d, t, hc, hend⟩ := chain_step turn hs he
    have hwake : ∀ id g o alive, s.woken turn = some (.output id g o alive) →
        (∀ d, o ≠ some (.data d)) → E id g := by
      intro id g o alive hw hdata
      unfold woken at hw
      split_ifs at hw with hp
      exact hends id g ⟨hp, o, alive, Option.some.inj hw, hdata⟩
    obtain ⟨-, -, -, ht⟩ : Ids d t ∧ Ptys d t ∧ Steady d t ∧ Unhurt base E d t :=
      chain_rule (I := fun d t => Ids d t ∧ Ptys d t ∧ Steady d t ∧ Unhurt base E d t)
        (fun a b hm hi => ⟨hi.1.move hm, hi.2.1.move hm hi.1, hi.2.2.1.move hfails hm,
          hi.2.2.2.move halive hwake hm hi.1 hi.2.1 hi.2.2.1⟩) hc ⟨hids, hptys, hs.steady, h⟩
    rcases hend with ⟨rfl | rfl, hstep⟩ | ⟨-, hstep⟩ <;> rw [hstep] at hgoes ⊢
    · exact ht
    · obtain ⟨new, hnew, -, hold⟩ := ht
      exact ⟨new, hnew, nofun, hold⟩
    · cases hgoes
  · -- The PTY whose outputs ended is not attached any more.
    push Not at halive
    obtain ⟨id, g, hw⟩ := halive
    unfold woken at hw
    split_ifs at hw with hp
    have hwake := Option.some.inj hw
    rw [step_stale he hp hwake fun p hh => hdead ⟨hp, id, p, g, hwake, hh⟩]
    exact h.still (List.append_nil _).symm nofun nofun rfl nofun

theorem run_append (before later : List Turn) (turn : Turn) :
    run cfg (before ++ (later ++ [turn])) = (run cfg (before ++ later)).step turn := by
  rw [← List.append_assoc, run_concat]

/-- The outputs with this tag end in one of the turns after `before`. -/
def EndsIn (cfg : HostConfig) (before later : List Turn) (id g : ℕ) : Prop :=
  ∃ pre turn post, later = pre ++ turn :: post ∧ (run cfg (before ++ pre)).OutputEnds turn id g

theorem unhurt_run (cfg : HostConfig) (before later : List Turn)
    (hfails : ∀ pre turn post, later = pre ++ turn :: post →
      ¬(run cfg (before ++ pre)).reattachFails turn)
    (hdead : ∀ pre turn post, later = pre ++ turn :: post →
      ¬(run cfg (before ++ pre)).FindsDead turn)
    (he : (run cfg (before ++ later)).ended = false) :
    Unhurt (run cfg before).log (EndsIn cfg before later) .top (run cfg (before ++ later)) := by
  induction later using List.reverseRecOn with
  | nil =>
    refine ⟨[], by simp, nofun, fun mid p id g spec post hcut => ?_⟩
    simp at hcut
  | append_singleton later turn ih =>
    rw [run_append] at he ⊢
    have he' := ended_of_step he
    have hsplit : ∀ pre turn' post, later = pre ++ turn' :: post →
        later ++ [turn] = pre ++ turn' :: (post ++ [turn]) := by
      rintro pre turn' post rfl
      simp
    have hold := ih (fun pre turn' post h => hfails pre turn' _ (hsplit pre turn' post h))
      (fun pre turn' post h => hdead pre turn' _ (hsplit pre turn' post h)) he'
    have hmore : Unhurt (run cfg before).log (EndsIn cfg before (later ++ [turn])) .top
        (run cfg (before ++ later)) := by
      obtain ⟨new, hnew, hflight, hkept⟩ := hold
      refine ⟨new, hnew, hflight, fun mid p id g spec post hcut hclosed hend => ?_⟩
      refine hkept mid p id g spec post hcut hclosed ?_
      rintro ⟨pre, turn', post, hlater, hout⟩
      exact hend ⟨pre, turn', _, hsplit pre turn' post hlater, hout⟩
    exact hmore.turn turn (shaped_run he') he' (run_ids he') (run_ptys he')
      (hfails later turn [] rfl) (hdead later turn [] rfl) (fun id g hout => ⟨later, turn, [], rfl, hout⟩) he

theorem untroubled (cfg : HostConfig) (before later : List Turn)
    (hfails : ∀ pre turn post, later = pre ++ turn :: post →
      ¬(run cfg (before ++ pre)).reattachFails turn) : Untroubled cfg before later := by
  intro hdead he mid p id g spec post hlog hclosed hends
  obtain ⟨new, hnew, -, hold⟩ := unhurt_run cfg before later hfails hdead he
  obtain rfl := List.append_cancel_left (hnew.symm.trans hlog)
  refine hold mid p id g spec post rfl (by simpa using hclosed) ?_
  rintro ⟨pre, turn, rest, hlater, hout⟩
  exact hends pre turn rest hlater hout

end Runs

section Ends

/-- Since `u` no terminal had a channel end: the counts are as they were, and those of new
terminals are 0. -/
structure Counted (u : Terms) (d : Doing) (s : Terms) : Prop where
  next : u.nextId ≤ s.nextId
  new : ∀ id spec, d.flight = .new id spec → u.nextId ≤ id
  slots : ∀ id slot', s.slot id = some slot' → (u.nextId ≤ id ∧ slot'.quickEnds = 0) ∨
    ∃ slot, u.slot id = some slot ∧ slot'.quickEnds = slot.quickEnds

theorem Counted.frame {u : Terms} (h : Counted u d s) (hnext : s'.nextId = s.nextId)
    (hnew : ∀ id spec, d'.flight = .new id spec → d.flight = .new id spec)
    (hslots : ∀ id slot', s'.slot id = some slot' →
      ∃ slot, s.slot id = some slot ∧ slot'.quickEnds = slot.quickEnds) : Counted u d' s' := by
  refine ⟨hnext ▸ h.next, fun id spec hf => h.new id spec (hnew id spec hf), fun id slot' hs' => ?_⟩
  obtain ⟨slot, hs, hq⟩ := hslots id slot' hs'
  rw [hq]
  exact h.slots id slot hs

theorem Counted.still {u : Terms} (h : Counted u d s) (hnext : s'.nextId = s.nextId)
    (hslots : s'.slots = s.slots)
    (hnew : ∀ id spec, d'.flight = .new id spec → d.flight = .new id spec) : Counted u d' s' :=
  h.frame hnext hnew fun id slot hs => ⟨slot, by rwa [Terms.slot, ← hslots], rfl⟩

theorem Counted.handles {u : Terms} (h : Counted u d s) (cmd : TermCmd)
    (hf : d'.flight = d.flight ∨ d'.flight = .none) : Counted u d' (s.doLocal cmd) := by
  have hc := handles_doLocal s cmd
  refine h.frame hc.nextId (fun id spec hg => ?_) fun id slot' hs => ?_
  · rcases hf with hf | hf <;> rw [hf] at hg
    · exact hg
    · cases hg
  · obtain ⟨slot, hs, hsame⟩ := hc.found id slot' hs
    exact ⟨slot, hs, hsame.quickEnds⟩

/-- Every move but the end of a channel. -/
theorem Counted.move {u : Terms} (hw : ∀ id g, w ≠ some (.output id g none true))
    (hm : Move fails w a b) (h : Counted u a.1 a.2) : Counted u b.1 b.2 := by
  cases hm with
  | waits script now => exact h.still rfl rfl fun _ _ hf => hf
  | stops => exact h.handles .stop (Or.inr rfl)
  | handles cmd => exact h.handles cmd (Or.inl rfl)
  | takes hp => exact h.still rfl rfl nofun
  | pops hp => exact h.still rfl rfl nofun
  | dials => exact h.still rfl rfl nofun
  | connects hd => exact h.still rfl rfl nofun
  | rests hd hup hbusy => exact h.still rfl rfl nofun
  | @loses v f s reason hf =>
    refine h.frame rfl nofun fun id slot' hs => ?_
    obtain ⟨slot, hold, rfl⟩ := slot_map_detach (s := s) rfl hs
    exact ⟨slot, hold, rfl⟩
  | attachesAgain hl hs hp => exact h.still rfl rfl nofun
  | attachesNew hl =>
    refine ⟨Nat.le_succ_of_le h.next, ?_, h.slots⟩
    rintro id spec' ⟨⟩
    exact h.next
  | failsAgain hf => exact h.still rfl rfl nofun
  | failsNew => exact h.still rfl rfl nofun
  | @attachedAgain v s id g spec =>
    rcases attachedAgain_cases s id g spec with ⟨slot, hs, heq⟩ | ⟨hs, heq⟩
    · rw [heq]
      refine h.frame rfl nofun fun id' slot' hs' => ?_
      rw [slot_note, slot_setSlot] at hs'
      split_ifs at hs' with he
      · cases hs'
        exact ⟨slot, he ▸ hs, rfl⟩
      · exact ⟨slot', hs', rfl⟩
    · rw [heq]
      exact h.still rfl rfl nofun
  | @attachedNew reply s id spec =>
    refine ⟨h.next, nofun, fun id' slot' hs => ?_⟩
    rw [slot_note, slot_setSlot] at hs
    split_ifs at hs with he
    · cases hs
      exact Or.inl ⟨he ▸ h.new id spec rfl, rfl⟩
    · exact h.slots id' slot' hs
  | refuses => exact h.still rfl rfl nofun
  | delivers hheard => exact h.still rfl rfl nofun
  | @exits s id slot status alive hheard =>
    refine h.frame rfl nofun fun id' slot' hs => ?_
    rw [slot_dropSlot] at hs
    split_ifs at hs
    exact ⟨slot', hs, rfl⟩
  | givesUp hheard hl hq => exact absurd hheard.wake (hw _ _)
  | closes hheard hl hq => exact absurd hheard.wake (hw _ _)

theorem Counted.refl (u : Terms) : Counted u .top u :=
  ⟨Nat.le_refl _, nofun, fun _ slot hs => Or.inr ⟨slot, hs, rfl⟩⟩

/-- What a turn starts with. -/
def awake (s : Terms) (turn : Turn) : Terms :=
  { s with now := s.now + turn.elapsed, script := turn.script }

theorem channelEnd_eq_some {turn : Turn} {slot : Slot} (hc : s.channelEnd turn id = some slot) :
    s.pending = [] ∧ turn.wake = .output id slot.generation none true ∧ s.link = .up ∧
      s.slot id = some slot ∧ slot.pty.isSome := by
  unfold channelEnd at hc
  split at hc
  · rename_i id' g hp hw
    split_ifs at hc with hif
    obtain ⟨rfl, hl⟩ := hif
    obtain ⟨hs, hslot⟩ := Option.filter_eq_some_iff.mp hc
    obtain ⟨rfl, hpty⟩ : slot.generation = g ∧ slot.pty.isSome := by simpa using hslot
    exact ⟨hp, hw, hl, hs, hpty⟩
  · cases hc

/-- What the end of a channel comes to: the terminal ends, or is to attach again. -/
theorem step_channelEnd {turn : Turn} {slot : Slot} (he : s.ended = false)
    (hc : s.channelEnd turn id = some slot) :
    (maxQuickEnds ≤ (s.awake turn).endsNow slot ∧ s.step turn =
      (((s.awake turn).note (.owner id (.exited none))).dropSlot id).idleIfEmpty) ∨
    (s.awake turn).endsNow slot < maxQuickEnds ∧ ∃ d t, Chain True none
      (.top, ((s.awake turn).setSlot id
        { slot with pty := none, quickEnds := (s.awake turn).endsNow slot }).note
          (.owner id (.detached "terminal channel closed"))) (d, t) ∧
      (d.over ∧ s.step turn = t ∨ d.halted ∧ s.step turn = t.closeAll) := by
  obtain ⟨hp, hw, hl, hs, hpty⟩ := channelEnd_eq_some hc
  have hslot : (s.awake turn).slot id = some slot := hs
  have hlink : (s.awake turn).link = .up := hl
  have hbody : (s.awake turn).body turn = (s.awake turn).channelEnded id := by
    have hgen : ¬(slot.generation ≠ slot.generation || slot.pty.isNone) = true := by
      simp [Option.isSome_iff_ne_none.mp hpty]
    rw [awake, body_output hp hw]
    unfold output
    rw [show Terms.slot { s with now := s.now + turn.elapsed, script := turn.script } id =
      some slot from hs]
    simp only [if_neg hgen, hl]
    rfl
  have hawake : { s with now := s.now + turn.elapsed, script := turn.script } = s.awake turn := rfl
  have hq : (if (s.awake turn).now - slot.attachedAt < stableAfter then slot.quickEnds + 1
    else 0) = (s.awake turn).endsNow slot := rfl
  rw [step, if_neg (by simp [he]), hawake, hbody]
  unfold channelEnded
  simp only [hslot, hq]
  generalize s.awake turn = s' at hslot hlink
  split_ifs with hmax
  · exact Or.inl ⟨hmax, by rw [dropSlot_setSlot]⟩
  · refine Or.inr ⟨Nat.lt_of_not_le hmax, ?_⟩
    generalize hu : (s'.setSlot id { slot with pty := none, quickEnds := s'.endsNow slot }).note
      (.owner id (.detached "terminal channel closed")) = u
    have hslot' : u.slot id = some { slot with pty := none, quickEnds := s'.endsNow slot } := by
      rw [← hu, slot_note, slot_setSlot, if_pos rfl]
    have hclosed := leads_closed (F := True) (w := none) (hu ▸ hlink : u.link = .up) hslot' rfl
      fun _ => trivial
    simp only at hclosed
    rcases ha : u.attach id (slot.generation + 1) slot.spec with ⟨t, _ | e | p⟩ <;>
      rw [ha] at hclosed
    · obtain ⟨d, hd, hclosed⟩ := hclosed
      exact ⟨d, t, hclosed, Or.inr ⟨hd, rfl⟩⟩
    · exact ⟨_, _, hclosed, Or.inl ⟨over_top, rfl⟩⟩
    · exact ⟨_, _, hclosed, Or.inl ⟨over_top, rfl⟩⟩

theorem rowAfter_of_none {turn : Turn} (row : ℕ) (h : s.channelEnd turn id = none) :
    s.rowAfter turn id row = row := by rw [rowAfter, h]

theorem rowAfter_of_some {turn : Turn} {slot : Slot} (h : s.channelEnd turn id = some slot) :
    s.rowAfter turn id slot.quickEnds = (s.awake turn).endsNow slot := by
  rw [rowAfter, h]
  rfl

theorem quickRow_concat (cfg : HostConfig) (id : ℕ) (turns : List Turn) (turn : Turn) :
    quickRow cfg id (turns ++ [turn]) =
      (run cfg turns).rowAfter turn id (quickRow cfg id turns) := by
  have hfst : ∀ ts : List Turn, (ts.foldl (fun x turn => (x.1.step turn,
      x.1.rowAfter turn id x.2)) (init cfg, 0)).1 = run cfg ts := by
    intro ts
    induction ts using List.reverseRecOn with
    | nil => rfl
    | append_singleton ts turn ih => rw [List.foldl_concat, run_concat, ih]
  rw [quickRow, List.foldl_concat, ← hfst]
  rfl

/-- The rows of quick ends are the counts of the slots. -/
structure Rows (s : Terms) (row : ℕ → ℕ) : Prop where
  fresh : ∀ id, s.nextId ≤ id → row id = 0
  slots : ∀ id slot, s.slot id = some slot → row id = slot.quickEnds ∧ row id < maxQuickEnds

theorem Rows.counted {u : Terms} {row : ℕ → ℕ} (h : Rows u row) (hc : Counted u d s) :
    Rows s row := by
  refine ⟨fun id hid => h.fresh id (Nat.le_trans hc.next hid), fun id slot' hs' => ?_⟩
  rcases hc.slots id slot' hs' with ⟨hid, hq⟩ | ⟨slot, hs, hq⟩
  · rw [h.fresh id hid, hq]
    exact ⟨rfl, by decide⟩
  · rw [hq]
    exact h.slots id slot hs

theorem slot_idleIfEmpty (s : Terms) (id : ℕ) : s.idleIfEmpty.slot id = s.slot id := by
  unfold idleIfEmpty
  split_ifs <;> rfl

theorem nextId_idleIfEmpty (s : Terms) : s.idleIfEmpty.nextId = s.nextId := by
  unfold idleIfEmpty
  split_ifs <;> rfl

theorem log_idleIfEmpty (s : Terms) : s.log ⊆ s.idleIfEmpty.log := by
  unfold idleIfEmpty
  split_ifs
  · exact List.subset_append_left _ _
  · exact List.Subset.refl _

/-- Only one terminal's channel ends in a turn. -/
theorem channelEnd_other {turn : Turn} {slot : Slot} {id' : ℕ}
    (h : s.channelEnd turn id = some slot) (he : id ≠ id') : s.channelEnd turn id' = none := by
  obtain ⟨hp, hw, -⟩ := channelEnd_eq_some h
  simp only [channelEnd, hp, hw]
  rw [if_neg fun hif => he hif.1]

theorem Rows.turn {row : ℕ → ℕ} {turn : Turn} (hs : s.Shaped) (he : s.ended = false)
    (hids : Ids .top s) (h : Rows s row) (hgoes : (s.step turn).ended = false) :
    Rows (s.step turn) fun id => s.rowAfter turn id (row id) := by
  by_cases hend : ∃ id slot, s.channelEnd turn id = some slot
  · obtain ⟨id, slot, hc⟩ := hend
    obtain ⟨-, -, -, hslot, -⟩ := channelEnd_eq_some hc
    have hrow : s.rowAfter turn id (row id) = (s.awake turn).endsNow slot := by
      rw [(h.slots id slot hslot).1, rowAfter_of_some hc]
    have hothers : ∀ id', id ≠ id' → s.rowAfter turn id' (row id') = row id' :=
      fun id' hne => rowAfter_of_none _ (channelEnd_other hc hne)
    have hold : id < s.nextId := hids.slots id slot hslot
    rcases step_channelEnd he hc with ⟨-, hstep⟩ | ⟨hlt, d, t, hchain, hstep⟩
    · rw [hstep]
      refine ⟨fun id' hid => ?_, fun id' slot' hs' => ?_⟩
      · rw [nextId_idleIfEmpty] at hid
        have hne : id ≠ id' := Nat.ne_of_lt (Nat.lt_of_lt_of_le hold hid)
        rw [hothers id' hne]
        exact h.fresh id' hid
      · rw [slot_idleIfEmpty, slot_dropSlot] at hs'
        split_ifs at hs' with hne
        rw [hothers id' hne]
        exact h.slots id' slot' hs'
    · have hstart : Rows (((s.awake turn).setSlot id
          { slot with pty := none, quickEnds := (s.awake turn).endsNow slot }).note
            (.owner id (.detached "terminal channel closed")))
              fun id => s.rowAfter turn id (row id) := by
        refine ⟨fun id' hid => ?_, fun id' slot' hs' => ?_⟩
        · have hne : id ≠ id' := Nat.ne_of_lt (Nat.lt_of_lt_of_le hold hid)
          rw [hothers id' hne]
          exact h.fresh id' hid
        · rw [slot_note, slot_setSlot] at hs'
          split_ifs at hs' with hne
          · cases hs'
            rw [← hne, hrow]
            exact ⟨rfl, hlt⟩
          · rw [hothers id' hne]
            exact h.slots id' slot' hs'
      have hcounted : Counted _ d t :=
        chain_rule (fun _ _ hm => Counted.move (by simp) hm) hchain (Counted.refl _)
      rcases hstep with ⟨-, hstep⟩ | ⟨-, hstep⟩ <;> rw [hstep] at hgoes ⊢
      · exact hstart.counted hcounted
      · cases hgoes
  · have hnone : ∀ id, s.channelEnd turn id = none := by
      intro id
      cases hc : s.channelEnd turn id with
      | none => rfl
      | some slot => exact absurd ⟨id, slot, hc⟩ hend
    simp only [fun id => rowAfter_of_none (row id) (hnone id)]
    by_cases hw : ∀ id g, s.woken turn ≠ some (.output id g none true)
    · obtain ⟨d, t, hchain, hstep⟩ := chain_step turn hs he
      have hcounted : Counted s d t :=
        chain_rule (fun _ _ hm => Counted.move hw hm) hchain (Counted.refl s)
      rcases hstep with ⟨-, hstep⟩ | ⟨-, hstep⟩ <;> rw [hstep] at hgoes ⊢
      · exact h.counted hcounted
      · cases hgoes
    · push Not at hw
      obtain ⟨id, g, hw⟩ := hw
      unfold woken at hw
      split_ifs at hw with hp
      have hwake := Option.some.inj hw
      have hstale : ∀ p, ¬s.Holds id p g := by
        rintro p ⟨slot, hslot, hpty, rfl⟩
        have hl : s.link = .up := by
          refine hs.steady.up nofun rfl fun hd => ?_
          rw [hd id slot hslot] at hpty
          cases hpty
        have hc := hnone id
        simp [channelEnd, hp, hwake, hl, hslot, hpty] at hc
      rw [step_stale he hp hwake hstale]
      exact ⟨h.fresh, h.slots⟩

theorem run_rows (cfg : HostConfig) (turns : List Turn) (he : (run cfg turns).ended = false) :
    Rows (run cfg turns) fun id => quickRow cfg id turns := by
  induction turns using List.reverseRecOn with
  | nil =>
    refine ⟨fun _ _ => rfl, fun id slot hs => ?_⟩
    cases (slot_init id cfg).symm.trans hs
  | append_singleton turns turn ih =>
    simp only [quickRow_concat]
    rw [run_concat] at he ⊢
    have he' := ended_of_step he
    exact (ih he').turn (shaped_run he') he' (run_ids he') he

theorem given_up (cfg : HostConfig) (turns : List Turn) : GivenUp cfg turns := by
  intro he id
  have hrows := run_rows cfg turns he
  refine ⟨fun slot hs => (hrows.slots id slot hs).2, fun turn slot hc hmax => ?_⟩
  obtain ⟨-, -, -, hslot, -⟩ := channelEnd_eq_some hc
  simp only [(hrows.slots id slot hslot).1, rowAfter_of_some hc] at hmax
  rcases step_channelEnd he hc with ⟨-, hstep⟩ | ⟨hlt, -⟩
  · rw [hstep]
    refine ⟨?_, ?_⟩
    · exact log_idleIfEmpty _ (List.mem_append_right _ List.mem_cons_self)
    · rw [slot_idleIfEmpty, slot_dropSlot, if_pos rfl]
  · exact absurd hlt (Nat.not_lt_of_le hmax)

/-- In every run in which, from some turn on, no terminal fails to attach again while another one
is attached: the trouble of one terminal stays its own. A terminal whose channel keeps ending is
given up on. -/
theorem trouble_stays (cfg : HostConfig) (before later : List Turn)
    (hfails : ∀ pre turn post, later = pre ++ turn :: post →
      ¬(run cfg (before ++ pre)).reattachFails turn) :
    Untroubled cfg before later ∧ GivenUp cfg (before ++ later) :=
  ⟨untroubled cfg before later hfails, given_up cfg (before ++ later)⟩

theorem not_channelFails {slot : Slot}
    (h : (((s.setSlot id { slot with pty := none, quickEnds := s.endsNow slot }).note
      (.owner id (.detached "terminal channel closed"))).attach id (slot.generation + 1)
        slot.spec).2.any (·.isOk)) : ¬s.channelFails id slot := by
  rintro ⟨-, hfails⟩
  split at hfails
  · rename_i ha
    rw [ha] at h
    cases h
  · exact hfails

theorem trouble_stays_recovered :
    Untroubled ⟨"h", .localHost, none⟩ (failedTurns.take 2) [recoveredTurn] ∧
      GivenUp ⟨"h", .localHost, none⟩ (failedTurns.take 2 ++ [recoveredTurn]) := by
  refine trouble_stays ⟨"h", .localHost, none⟩ (failedTurns.take 2) [recoveredTurn] ?_
  rintro (_ | ⟨turn', pre⟩) turn post hcut
  · obtain ⟨rfl, -⟩ := List.cons.inj hcut
    have hslot : ((run ⟨"h", .localHost, none⟩ (failedTurns.take 2)).awake recoveredTurn).slot 1 =
        some ⟨⟨"a", false, ⟨80, 24⟩⟩, some 0, 0, 10, 0⟩ := by decide
    rintro ⟨slot, hs, -, -, -, -, hfails⟩
    cases hslot.symm.trans hs
    exact not_channelFails (by decide) hfails
  · cases pre <;> cases (List.cons.inj hcut).2

end Ends

end MultiAi.Terms
