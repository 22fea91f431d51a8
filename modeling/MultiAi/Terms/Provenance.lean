import MultiAi.Terms.Ptys

/-! # Where the output of a terminal comes from

The PTYs of all terminals share one channel, on which outputs of PTYs of the past arrive late.
What the owner of a terminal is given is what the PTY it is attached to produced.
-/

namespace MultiAi.Terms

open Std

/-- An output tagged with its terminal and attach generation (`none`: the outputs ended). -/
abbrev Tagged := ℕ × ℕ × Option PtyOut

/-- The PTYs of a task, and the channel on which they forward their outputs. -/
structure Wires where
  /-- All that a PTY produced. -/
  produced : ℕ → List PtyOut
  /-- What it produced and did not forward yet. -/
  waiting : ℕ → List PtyOut
  /-- It produces no more. -/
  closed : ℕ → Bool
  /-- It forwarded its end. -/
  done : ℕ → Bool
  out : List Tagged

structure Wired where
  terms : Terms
  wires : Wires

inductive Happening where
  | produces (p : ℕ) (o : PtyOut)
  | closes (p : ℕ)
  | forwards (p : ℕ)
  | turns (turn : Turn)

/-- The terminal and the generation that a PTY was created for. -/
def port (log : List TermEffect) (p : ℕ) : Option (ℕ × ℕ) := log.findSome? fun
  | .created p' id g _ => if p' = p then some (id, g) else none
  | _ => none

/-- The channel after a turn; `none` if the turn takes an output that is not the next one. -/
def Wired.rest (s : Wired) (turn : Turn) : Option (List Tagged) :=
  match s.terms.pending, turn.wake with
  | [], .output id g o _ =>
    match s.wires.out with
    | x :: rest => if x = (id, g, o) then some rest else none
    | [] => none
  | _, _ => some s.wires.out

/-- What cannot happen changes nothing. The task reads the channel between its turns only: what
is produced and forwarded while a turn awaits comes after it. -/
def Wired.step (s : Wired) : Happening → Wired
  | .produces p o =>
    if (port s.terms.log p).isSome && !s.wires.closed p then
      { s with wires := { s.wires with
        produced := Function.update s.wires.produced p (s.wires.produced p ++ [o])
        waiting := Function.update s.wires.waiting p (s.wires.waiting p ++ [o]) } }
    else s
  | .closes p =>
    if (port s.terms.log p).isSome then
      { s with wires := { s.wires with closed := Function.update s.wires.closed p true } }
    else s
  | .forwards p =>
    match port s.terms.log p, s.wires.waiting p with
    | some (id, g), o :: waiting =>
      { s with wires := { s.wires with
        waiting := Function.update s.wires.waiting p waiting
        out := s.wires.out ++ [(id, g, some o)] } }
    | some (id, g), [] =>
      if s.wires.closed p && !s.wires.done p then
        { s with wires := { s.wires with
          done := Function.update s.wires.done p true
          out := s.wires.out ++ [(id, g, none)] } }
      else s
    | none, _ => s
  | .turns turn =>
    match s.rest turn with
    | some rest => { terms := s.terms.step turn, wires := { s.wires with out := rest } }
    | none => s

def Wired.start (cfg : HostConfig) : Wired :=
  ⟨init cfg, fun _ => [], fun _ => [], fun _ => false, fun _ => false, []⟩

def Wired.run (cfg : HostConfig) (happenings : List Happening) : Wired :=
  happenings.foldl Wired.step (.start cfg)

/-- What the owner of a terminal receives. -/
def owned (log : List TermEffect) (id : ℕ) : List TermEvent := log.filterMap fun
  | .owner id' e => if id' = id then some e else none
  | _ => none

/-- The outputs on the channel with this tag. -/
def queued (out : List Tagged) (id g : ℕ) : List PtyOut :=
  out.filterMap fun x => if x.1 = id ∧ x.2.1 = g then x.2.2 else none

/-- The log ends with what a terminal was given since its last PTY was created: that it is
attached, and these outputs. -/
def Since (log : List TermEffect) (id p g : ℕ) (outs : List (List UInt8)) : Prop :=
  ∃ pre spec post, log = pre ++ .created p id g spec :: post ∧
    (∀ p' g' spec', .created p' id g' spec' ∉ post) ∧
    owned post id = .attached :: outs.map .output

/-- The owner was told first of all that the terminal is attached. -/
def Begun (log : List TermEffect) (id : ℕ) : Prop := ∃ rest, owned log id = .attached :: rest

/-- What holds of the log at any time. -/
structure Sourced (produced : ℕ → List PtyOut) (log : List TermEffect) : Prop where
  begins : ∀ id, owned log id = [] ∨ Begun log id
  ends : ∀ pre id status post, log = pre ++ .owner id (.exited status) :: post →
    owned post id = []
  outputs : ∀ pre id d post, log = pre ++ .owner id (.output d) :: post →
    ∃ p g outs, Since pre id p g outs ∧ (outs ++ [d]).map .data <+: produced p

/-- What holds within a turn. -/
structure Linked (x : Wires) (d : Doing) (s : Terms) : Prop where
  sourced : Sourced x.produced s.log
  keys : ∀ p p' id g spec spec', .created p id g spec ∈ s.log → .created p' id g spec' ∈ s.log →
    p' = p
  tags : ∀ p id g spec id' g' spec', .created p id g spec ∈ s.log →
    .created p id' g' spec' ∈ s.log → id' = id ∧ g' = g
  generations : ∀ p id g spec slot, .created p id g spec ∈ s.log → s.slot id = some slot →
    g ≤ slot.generation
  again : ∀ id g, d.flight = .again id g → ∀ p g' spec, .created p id g' spec ∈ s.log → g' < g
  new : ∀ id spec, d.flight = .new id spec →
    (∀ p g spec', .created p id g spec' ∉ s.log) ∧ owned s.log id = []
  unmade : ∀ p, s.nextPty ≤ p → x.produced p = [] ∧ x.waiting p = []
  out : ∀ y ∈ x.out, ∃ p spec, .created p y.1 y.2.1 spec ∈ s.log
  begun : ∀ id slot, s.slot id = some slot → Begun s.log id
  exited : ∀ id status slot, .owner id (.exited status) ∈ s.log → s.slot id ≠ some slot
  held : ∀ id p g, s.Holds id p g → ∃ outs, Since s.log id p g outs ∧
    x.produced p = outs.map .data ++ queued x.out id g ++ x.waiting p

variable {x : Wires} {d d' : Doing} {s s' : Terms} {log new : List TermEffect} {id p g : ℕ}
  {w : Option Wake} {fails : Prop} {a b : Doing × Terms}

theorem owned_append : owned (log ++ new) id = owned log id ++ owned new id :=
  List.filterMap_append

theorem mem_owned {e : TermEvent} : e ∈ owned log id ↔ .owner id e ∈ log := by
  constructor
  · intro h
    obtain ⟨y, hy, he⟩ := List.mem_filterMap.mp h
    cases y with
    | owner id' e' =>
      simp only at he
      split_ifs at he with hid
      cases he
      exact hid ▸ hy
    | _ => cases he
  · exact fun h => List.mem_filterMap.mpr ⟨_, h, if_pos rfl⟩

theorem owned_eq_nil_iff : owned log id = [] ↔ ∀ e, .owner id e ∉ log := by
  simp only [List.eq_nil_iff_forall_not_mem, mem_owned]

theorem Begun.append (h : Begun log id) : Begun (log ++ new) id := by
  obtain ⟨rest, h⟩ := h
  exact ⟨rest ++ owned new id, by rw [owned_append, h]; rfl⟩

/-- A terminal of which nothing is told stays as it is. -/
theorem Since.append {outs : List (List UInt8)} (h : Since log id p g outs)
    (hcreated : ∀ p g spec, .created p id g spec ∉ new) (howned : owned new id = []) :
    Since (log ++ new) id p g outs := by
  obtain ⟨pre, spec, post, rfl, hlast, hpost⟩ := h
  refine ⟨pre, spec, post ++ new, by simp, fun p' g' spec' hmem => ?_, ?_⟩
  · rcases List.mem_append.mp hmem with hmem | hmem
    · exact hlast p' g' spec' hmem
    · exact hcreated p' g' spec' hmem
  · rw [owned_append, hpost, howned, List.append_nil]

theorem Since.created {outs : List (List UInt8)} (h : Since log id p g outs) :
    ∃ spec, .created p id g spec ∈ log := by
  obtain ⟨pre, spec, post, rfl, -⟩ := h
  exact ⟨spec, by simp⟩

theorem Sourced.append {produced : ℕ → List PtyOut} (h : Sourced produced log)
    (hbegins : ∀ id, owned new id ≠ [] → owned log id = [] ∧ Begun new id ∨ Begun log id)
    (hexited : ∀ id status, .owner id (.exited status) ∈ log → owned new id = [])
    (hends : ∀ pre id status post, new = pre ++ .owner id (.exited status) :: post →
      owned post id = [])
    (houtput : ∀ mid id d post, new = mid ++ .owner id (.output d) :: post → ∃ p g outs,
      Since (log ++ mid) id p g outs ∧ (outs ++ [d]).map .data <+: produced p) :
    Sourced produced (log ++ new) := by
  constructor
  case begins =>
    intro id
    by_cases hnew : owned new id = []
    · rw [owned_append, hnew, List.append_nil]
      exact (h.begins id).imp_right Begun.append
    · rcases hbegins id hnew with ⟨hnone, rest, hrest⟩ | hbegun
      · exact Or.inr ⟨rest, by rw [owned_append, hnone, hrest]; rfl⟩
      · exact Or.inr hbegun.append
  case ends =>
    intro pre id status post hcut
    rcases Log.append_eq_cut.mp hcut with ⟨mid, hold, rfl⟩ | ⟨mid, -, hnew⟩
    · rw [owned_append, h.ends pre id status mid hold,
        hexited id status (hold ▸ List.mem_append_right _ List.mem_cons_self)]
      rfl
    · exact hends mid id status post hnew
  case outputs =>
    intro pre id d post hcut
    rcases Log.append_eq_cut.mp hcut with ⟨mid, hold, -⟩ | ⟨mid, hpre, hnew⟩
    · exact h.outputs pre id d mid hold
    · rw [hpre]
      exact houtput mid id d post hnew

/-- A move that creates no PTY and delivers no output. -/
theorem Linked.frame (h : Linked x d s) (hids : Ids d s) (hlog : s'.log = s.log ++ new)
    (hcreated : ∀ p id g spec, .created p id g spec ∉ new)
    (houtput : ∀ id d, .owner id (.output d) ∉ new)
    (howner : ∀ id e, .owner id e ∈ new → ∃ slot, s.slot id = some slot)
    (hexit : ∀ pre id status post, new = pre ++ .owner id (.exited status) :: post →
      owned post id = [] ∧ s'.slot id = none)
    (hnext : s'.nextPty = s.nextPty)
    (hslots : ∀ id slot', s'.slot id = some slot' → ∃ slot, s.slot id = some slot ∧
      slot'.generation = slot.generation ∧
      (slot'.pty = none ∨ slot'.pty = slot.pty ∧ owned new id = []))
    (hagain : ∀ id g, d'.flight = .again id g → d.flight = .again id g ∨
      ∃ slot, s.slot id = some slot ∧ g = slot.generation + 1)
    (hnew : ∀ id spec, d'.flight = .new id spec → d.flight = .new id spec ∨
      (∀ y ∈ s.log, named y ≠ some id) ∧ owned new id = []) : Linked x d' s' := by
  have hmem : ∀ p id g spec, .created p id g spec ∈ s'.log → .created p id g spec ∈ s.log := by
    intro p id g spec hmem
    rw [hlog] at hmem
    exact (List.mem_append.mp hmem).resolve_right (hcreated p id g spec)
  have hgrow : ∀ y ∈ s.log, y ∈ s'.log := fun y hy => hlog ▸ List.mem_append_left _ hy
  constructor
  case sourced =>
    rw [hlog]
    refine h.sourced.append (fun id hne => Or.inr ?_) (fun id status hmem => ?_)
      (fun pre id status post hcut => (hexit pre id status post hcut).1)
      (fun mid id d post hcut => absurd (by rw [hcut]; simp) (houtput id d))
    · rw [ne_eq, owned_eq_nil_iff] at hne
      push Not at hne
      obtain ⟨e, he⟩ := hne
      obtain ⟨slot, hs⟩ := howner id e he
      exact h.begun id slot hs
    · refine owned_eq_nil_iff.mpr fun e he => ?_
      obtain ⟨slot, hs⟩ := howner id e he
      exact h.exited id status slot hmem hs
  case keys =>
    exact fun p p' id g spec spec' hm hm' =>
      h.keys p p' id g spec spec' (hmem _ _ _ _ hm) (hmem _ _ _ _ hm')
  case tags =>
    exact fun p id g spec id' g' spec' hm hm' =>
      h.tags p id g spec id' g' spec' (hmem _ _ _ _ hm) (hmem _ _ _ _ hm')
  case generations =>
    intro p id g spec slot' hm hs'
    obtain ⟨slot, hs, hg, -⟩ := hslots id slot' hs'
    rw [hg]
    exact h.generations p id g spec slot (hmem _ _ _ _ hm) hs
  case again =>
    intro id g hf p g' spec hm
    rcases hagain id g hf with hf | ⟨slot, hs, rfl⟩
    · exact h.again id g hf p g' spec (hmem _ _ _ _ hm)
    · exact Nat.lt_succ_of_le (h.generations p id g' spec slot (hmem _ _ _ _ hm) hs)
  case new =>
    intro id spec hf
    rw [hlog, owned_append]
    rcases hnew id spec hf with hf | ⟨hfresh, hnone⟩
    · obtain ⟨hc, ho⟩ := h.new id spec hf
      obtain ⟨-, hslot, -⟩ := hids.new id spec hf
      refine ⟨fun p g spec' hm => hc p g spec' (hmem _ _ _ _ (hlog ▸ hm)), ?_⟩
      rw [ho, List.nil_append, owned_eq_nil_iff]
      intro e he
      obtain ⟨slot, hs⟩ := howner id e he
      cases hslot.symm.trans hs
    · refine ⟨fun p g spec' hm => hfresh _ (hmem _ _ _ _ (hlog ▸ hm)) rfl, ?_⟩
      rw [hnone, List.append_nil, owned_eq_nil_iff]
      exact fun e he => hfresh _ he rfl
  case unmade =>
    rw [hnext]
    exact h.unmade
  case out =>
    intro y hy
    obtain ⟨p, spec, hm⟩ := h.out y hy
    exact ⟨p, spec, hgrow _ hm⟩
  case begun =>
    intro id slot' hs'
    obtain ⟨slot, hs, -⟩ := hslots id slot' hs'
    rw [hlog]
    exact (h.begun id slot hs).append
  case exited =>
    intro id status slot' hm hs'
    rw [hlog] at hm
    rcases List.mem_append.mp hm with hm | hm
    · obtain ⟨slot, hs, -⟩ := hslots id slot' hs'
      exact h.exited id status slot hm hs
    · obtain ⟨pre, post, hcut⟩ := List.append_of_mem hm
      cases (hexit pre id status post hcut).2.symm.trans hs'
  case held =>
    rintro id p g ⟨slot', hs', hp, rfl⟩
    obtain ⟨slot, hs, hg, hpty⟩ := hslots id slot' hs'
    rcases hpty with hnone | ⟨hpty, hnone⟩
    · rw [hnone] at hp
      cases hp
    · obtain ⟨outs, hsince, hprod⟩ := h.held id p slot.generation ⟨slot, hs, hpty ▸ hp, rfl⟩
      rw [hg, hlog]
      exact ⟨outs, hsince.append (fun p => hcreated p id) hnone, hprod⟩

theorem queued_append (out out' : List Tagged) (id g : ℕ) :
    queued (out ++ out') id g = queued out id g ++ queued out' id g := List.filterMap_append

theorem queued_singleton (id g id' g' : ℕ) (o : Option PtyOut) :
    queued [(id, g, o)] id' g' = if id = id' ∧ g = g' then o.toList else [] := by
  unfold queued
  split_ifs with h
  · obtain ⟨rfl, rfl⟩ := h
    cases o <;> simp
  · simp [h]

theorem queued_cons (id g id' g' : ℕ) (o : Option PtyOut) (rest : List Tagged) :
    queued ((id, g, o) :: rest) id' g' =
      (if id = id' ∧ g = g' then o.toList else []) ++ queued rest id' g' := by
  rw [← queued_singleton]
  exact queued_append [(id, g, o)] rest id' g'

theorem queued_eq_nil (h : ∀ y ∈ x.out, ∃ p spec, .created p y.1 y.2.1 spec ∈ log)
    (hfresh : ∀ p spec, .created p id g spec ∉ log) : queued x.out id g = [] := by
  refine List.filterMap_eq_nil_iff.mpr fun y hy => if_neg ?_
  rintro ⟨rfl, rfl⟩
  obtain ⟨p, spec, hm⟩ := h y hy
  exact hfresh p spec hm

theorem Landed.owned_ne {id' : ℕ} (h : Landed s s' id g new) (he : id ≠ id') :
    owned new id' = [] := by
  refine owned_eq_nil_iff.mpr fun e hm => ?_
  rcases h.mem hm with hx | ⟨_, _, hx⟩ | hx
  · cases hx
    exact he rfl
  · cases hx
  · cases hx

/-- The terminal is told that it is attached, or nothing. -/
theorem Landed.owned (h : Landed s s' id g new) :
    (∃ slot, s'.slot id = some slot ∧ slot.generation = g ∧ slot.pty = some s.nextPty ∧
      owned new id = [.attached]) ∨ s'.slot id = none ∧ owned new id = [] := by
  cases h with
  | @held slot replies hs hp hg hreplies =>
    have hnone : owned replies id = [] := by
      refine owned_eq_nil_iff.mpr fun e hm => ?_
      obtain ⟨reply, r, hx⟩ := hreplies _ hm
      cases hx
    refine .inl ⟨slot, hs, hg, hp, ?_⟩
    rw [← List.singleton_append, owned_append, hnone]
    simp [Terms.owned]
  | closed _ hs => exact .inr ⟨hs, rfl⟩

theorem Landed.event {id' : ℕ} {e : TermEvent} (h : Landed s s' id g new)
    (hm : .owner id' e ∈ new) : e = .attached := by
  rcases h.mem hm with hx | ⟨_, _, hx⟩ | hx <;> cases hx
  rfl

/-- The PTY is a new one. -/
theorem Creates.mem {spec spec' : AttachSpec} {id' g' : ℕ} (hc : Creates s s' id g spec new)
    (hptys : Ptys d s) (hm : .created p id' g' spec' ∈ s'.log) :
    .created p id' g' spec' ∈ s.log ∧ p < s.nextPty ∨ p = s.nextPty ∧ id' = id ∧ g' = g := by
  rw [hc.log] at hm
  rcases List.mem_append.mp hm with hm | hm
  · exact Or.inl ⟨hm, hptys.made p id' g' spec' hm⟩
  · rcases List.mem_cons.mp hm with heq | hm
    · cases heq
      exact Or.inr ⟨rfl, rfl, rfl⟩
    · rcases hc.landed.mem hm with hx | ⟨_, _, hx⟩ | hx <;> cases hx

/-- A slot is that of the terminal, which has the PTY, or another one and as it was. -/
theorem Creates.slot {spec : AttachSpec} {id' : ℕ} {slot' : Slot}
    (hc : Creates s s' id g spec new) (hs' : s'.slot id' = some slot') :
    id' = id ∧ owned new id = [.attached] ∧ slot'.generation = g ∧ slot'.pty = some s.nextPty ∨
      id ≠ id' ∧ s.slot id' = some slot' ∧ owned new id' = [] := by
  by_cases he : id = id'
  · subst he
    rcases hc.landed.owned with ⟨slot, hs, hg, hp, hnew⟩ | ⟨hnone, -⟩
    · cases hs.symm.trans hs'
      exact Or.inl ⟨rfl, hnew, hg, hp⟩
    · cases hnone.symm.trans hs'
  · exact Or.inr ⟨he, (hc.others id' he).symm.trans hs', hc.landed.owned_ne he⟩

/-- Only the terminal of a new PTY is told, and it is there already or it was told nothing yet. -/
theorem Creates.owned {spec : AttachSpec} (hc : Creates s s' id g spec new)
    (hsome : ∀ slot', s'.slot id = some slot' → (∃ slot, s.slot id = some slot) ∨
      owned s.log id = []) (id' : ℕ) :
    owned new id' = [] ∨ id' = id ∧ owned new id = [.attached] ∧
      ((∃ slot, s.slot id = some slot) ∨ owned s.log id = []) := by
  by_cases he : id = id'
  · subst he
    rcases hc.landed.owned with ⟨slot, hs, -, -, hnew⟩ | ⟨-, hnew⟩
    · exact Or.inr ⟨rfl, hnew, hsome slot hs⟩
    · exact Or.inl hnew
  · exact Or.inl (hc.landed.owned_ne he)

theorem Creates.sourced {spec : AttachSpec} (h : Linked x d s) (hc : Creates s s' id g spec new)
    (hsome : ∀ slot', s'.slot id = some slot' → (∃ slot, s.slot id = some slot) ∨
      Terms.owned s.log id = []) : Sourced x.produced s'.log := by
  have hcons (id' : ℕ) : Terms.owned (.created s.nextPty id g spec :: new) id' =
      Terms.owned new id' := rfl
  have hevent : ∀ id' e, .owner id' e ∈ .created s.nextPty id g spec :: new → e = .attached := by
    intro id' e hm
    rcases List.mem_cons.mp hm with heq | hm
    · cases heq
    · exact hc.landed.event hm
  rw [hc.log]
  refine h.sourced.append (fun id' hne => ?_) (fun id' status hm => ?_)
    (fun pre id' status post hcut => ?_) (fun mid id' d post hcut => ?_)
  · rw [hcons] at hne
    rcases hc.owned hsome id' with hnone | ⟨rfl, hone, ⟨slot, hs⟩ | hnone⟩
    · exact absurd hnone hne
    · exact Or.inr (h.begun _ slot hs)
    · exact Or.inl ⟨hnone, [], (hcons _).trans hone⟩
  · rw [hcons]
    rcases hc.owned hsome id' with hnone | ⟨rfl, -, ⟨slot, hs⟩ | hnone⟩
    · exact hnone
    · exact absurd hs (h.exited _ status slot hm)
    · exact absurd hm (owned_eq_nil_iff.mp hnone _)
  · cases hevent id' (.exited status) (by rw [hcut]; simp)
  · cases hevent id' (.output d) (by rw [hcut]; simp)

/-- A new PTY for a terminal, with a generation above those of its earlier ones. -/
theorem Linked.creates {spec : AttachSpec} (h : Linked x d s) (hptys : Ptys d s)
    (hc : Creates s s' id g spec new)
    (hfresh : ∀ p g' spec, .created p id g' spec ∈ s.log → g' < g)
    (hsome : ∀ slot', s'.slot id = some slot' → (∃ slot, s.slot id = some slot) ∨
      owned s.log id = []) (hflight : d'.flight = .none) : Linked x d' s' := by
  have hgrow : ∀ y ∈ s.log, y ∈ s'.log := fun y hy => hc.log ▸ List.mem_append_left _ hy
  constructor
  case sourced => exact hc.sourced h hsome
  case keys =>
    intro p p' id' g' spec₁ spec₂ hm hm'
    rcases hc.mem hptys hm with ⟨hm, -⟩ | ⟨rfl, rfl, rfl⟩ <;>
      rcases hc.mem hptys hm' with ⟨hm', -⟩ | ⟨rfl, hid, hg⟩
    · exact h.keys p p' id' g' spec₁ spec₂ hm hm'
    · subst hid hg
      exact absurd (hfresh p g' spec₁ hm) (Nat.lt_irrefl _)
    · exact absurd (hfresh p' g' spec₂ hm') (Nat.lt_irrefl _)
    · rfl
  case tags =>
    intro p id₁ g₁ spec₁ id₂ g₂ spec₂ hm hm'
    rcases hc.mem hptys hm with ⟨hm, hlt⟩ | ⟨rfl, rfl, rfl⟩ <;>
      rcases hc.mem hptys hm' with ⟨hm', hlt'⟩ | ⟨hp, rfl, rfl⟩
    · exact h.tags p id₁ g₁ spec₁ id₂ g₂ spec₂ hm hm'
    · exact absurd hp (Nat.ne_of_lt hlt)
    · exact absurd hlt' (Nat.lt_irrefl _)
    · exact ⟨rfl, rfl⟩
  case generations =>
    intro p id' g' spec' slot' hm hs'
    rcases hc.slot hs' with ⟨rfl, -, hg, -⟩ | ⟨he, hs, -⟩ <;>
      rcases hc.mem hptys hm with ⟨hm, -⟩ | ⟨-, hid, rfl⟩
    · rw [hg]
      exact Nat.le_of_lt (hfresh p g' spec' hm)
    · exact Nat.le_of_eq hg.symm
    · exact h.generations p id' g' spec' slot' hm hs
    · exact absurd hid.symm he
  case again =>
    intro id' g' hf
    rw [hflight] at hf
    cases hf
  case new =>
    intro id' spec' hf
    rw [hflight] at hf
    cases hf
  case unmade =>
    rw [hc.nextPty]
    exact fun p hp => h.unmade p (Nat.le_of_succ_le hp)
  case out =>
    intro y hy
    obtain ⟨p, spec', hm⟩ := h.out y hy
    exact ⟨p, spec', hgrow _ hm⟩
  case begun =>
    intro id' slot' hs'
    rw [hc.log]
    rcases hc.slot hs' with ⟨rfl, hone, -⟩ | ⟨-, hs, -⟩
    · rcases hsome slot' hs' with ⟨slot, hs⟩ | hnone
      · exact (h.begun id' slot hs).append
      · exact ⟨[], by rw [owned_append, hnone]; exact hone⟩
    · exact (h.begun id' slot' hs).append
  case exited =>
    intro id' status slot' hm hs'
    have hold : .owner id' (.exited status) ∈ s.log := by
      rw [hc.log] at hm
      rcases List.mem_append.mp hm with hm | hm
      · exact hm
      · rcases List.mem_cons.mp hm with heq | hm
        · cases heq
        · cases hc.landed.event hm
    rcases hc.slot hs' with ⟨rfl, -⟩ | ⟨-, hs, -⟩
    · rcases hsome slot' hs' with ⟨slot, hs⟩ | hnone
      · exact h.exited id' status slot hold hs
      · exact owned_eq_nil_iff.mp hnone _ hold
    · exact h.exited id' status slot' hold hs
  case held =>
    rintro id' p g' ⟨slot', hs', hp, rfl⟩
    rcases hc.slot hs' with ⟨rfl, hone, hg, hpty⟩ | ⟨he, hs, hnone⟩
    · cases hp.symm.trans hpty
      obtain ⟨hprod, hwait⟩ := h.unmade s.nextPty (Nat.le_refl _)
      have hqueue : queued x.out id' g = [] :=
        queued_eq_nil h.out fun p spec hm => Nat.lt_irrefl _ (hfresh p g spec hm)
      have hcreated : ∀ p g spec, .created p id' g spec ∉ new := by
        rintro p g spec hm
        rcases hc.landed.mem hm with hx | ⟨_, _, hx⟩ | hx <;> cases hx
      refine ⟨[], ⟨s.log, spec, new, hg ▸ hc.log, hcreated, hone⟩, ?_⟩
      rw [hg, hprod, hwait, hqueue]
      rfl
    · obtain ⟨outs, hsince, hprod⟩ := h.held id' p slot'.generation ⟨slot', hs, hp, rfl⟩
      refine ⟨outs, ?_, hprod⟩
      rw [hc.log]
      refine hsince.append (fun p g spec hm => ?_) hnone
      rcases List.mem_cons.mp hm with heq | hm
      · cases heq
        exact he rfl
      · rcases hc.landed.mem hm with hx | ⟨_, _, hx⟩ | hx <;> cases hx

/-- A move that changes no slot and tells no owner anything. -/
theorem Linked.still (h : Linked x d s) (hids : Ids d s) (hlog : s'.log = s.log ++ new)
    (hcreated : ∀ p id g spec, .created p id g spec ∉ new) (howner : ∀ id e, .owner id e ∉ new)
    (hnext : s'.nextPty = s.nextPty) (hslots : s'.slots = s.slots)
    (hagain : ∀ id g, d'.flight = .again id g → d.flight = .again id g ∨
      ∃ slot, s.slot id = some slot ∧ g = slot.generation + 1)
    (hnew : ∀ id spec, d'.flight = .new id spec → d.flight = .new id spec ∨
      ∀ y ∈ s.log, named y ≠ some id) : Linked x d' s' := by
  have hslot : ∀ id, s'.slot id = s.slot id := fun id => by rw [slot, slot, hslots]
  refine h.frame hids hlog hcreated (fun id d => howner id _)
    (fun id e he => absurd he (howner id e)) (fun pre id status post hcut => ?_) hnext
    (fun id slot' hs => ⟨slot', hslot id ▸ hs, rfl, Or.inr ⟨rfl, ?_⟩⟩) hagain
    fun id spec hf => (hnew id spec hf).imp_right fun hfresh => ⟨hfresh, ?_⟩
  · exact absurd (hcut ▸ List.mem_append_right _ List.mem_cons_self) (howner id _)
  · exact owned_eq_nil_iff.mpr (howner id)
  · exact owned_eq_nil_iff.mpr (howner id)

theorem Linked.handles (h : Linked x d s) (hids : Ids d s) (cmd : TermCmd)
    (hf : d'.flight = d.flight ∨ d'.flight = .none) : Linked x d' (s.doLocal cmd) := by
  have hc := handles_doLocal s cmd
  obtain ⟨sent, hlog, hsent, -⟩ := hc.log
  have howner : ∀ id e, .owner id e ∉ .handled cmd :: sent := by
    intro id e hm
    rcases List.mem_cons.mp hm with heq | hm
    · cases heq
    · obtain ⟨p, msg, heq⟩ := hsent _ hm
      cases heq
  refine h.frame hids hlog (fun p id g spec hm => ?_) (fun id d => howner id _)
    (fun id e he => absurd he (howner id e)) (fun pre id status post hcut => ?_) hc.nextPty ?_ ?_ ?_
  · rcases List.mem_cons.mp hm with heq | hm
    · cases heq
    · obtain ⟨p', msg, heq⟩ := hsent _ hm
      cases heq
  · exact absurd (by rw [hcut]; simp) (howner id (.exited status))
  · intro id slot' hs
    obtain ⟨slot, hslot, hsame⟩ := hc.found id slot' hs
    exact ⟨slot, hslot, hsame.generation, Or.inr ⟨hsame.pty, owned_eq_nil_iff.mpr (howner id)⟩⟩
  · intro id g hg
    rcases hf with hf | hf <;> rw [hf] at hg
    · exact Or.inl hg
    · cases hg
  · intro id spec hg
    rcases hf with hf | hf <;> rw [hf] at hg
    · exact Or.inl hg
    · cases hg

/-- A terminal is told of its end or its detaching. -/
theorem Linked.ends {e : TermEvent} {slot : Slot} (h : Linked x d s) (hids : Ids d s)
    (hs : s.slot id = some slot) (hlog : s'.log = s.log ++ [.owner id e])
    (houtput : ∀ d, e ≠ .output d) (hnext : s'.nextPty = s.nextPty)
    (hothers : ∀ id', id ≠ id' → s'.slot id' = s.slot id')
    (hend : s'.slot id = none ∨ (∀ status, e ≠ .exited status) ∧
      ∃ slot', s'.slot id = some slot' ∧ slot'.generation = slot.generation ∧ slot'.pty = none)
    (hflight : d'.flight = .none) : Linked x d' s' := by
  refine h.frame hids hlog (by simp) (fun id' d hm => ?_) (fun id' e' hm => ?_)
    (fun pre id' status post hcut => ?_) hnext (fun id' slot' hs' => ?_) ?_ ?_
  · cases List.mem_singleton.mp hm
    exact houtput d rfl
  · cases List.mem_singleton.mp hm
    exact ⟨slot, hs⟩
  · rcases pre with _ | ⟨y, pre⟩
    · obtain ⟨heq, rfl⟩ := List.cons.inj hcut
      cases heq
      exact ⟨rfl, hend.resolve_right fun hne => hne.1 status rfl⟩
    · simp at hcut
  · by_cases he : id = id'
    · subst he
      rcases hend with hnone | ⟨-, slot'', hs'', hg, hp⟩
      · cases hnone.symm.trans hs'
      · cases hs''.symm.trans hs'
        exact ⟨slot, hs, hg, Or.inl hp⟩
    · refine ⟨slot', hothers id' he ▸ hs', rfl, Or.inr ⟨rfl, ?_⟩⟩
      exact (owned_eq_nil_iff.mpr fun e' hm => by cases List.mem_singleton.mp hm; exact he rfl)
  · intro id' g hg
    rw [hflight] at hg
    cases hg
  · intro id' spec hg
    rw [hflight] at hg
    cases hg

/-- Every move but the delivery of an output. -/
theorem Linked.move (hw : ∀ id g d alive, w ≠ some (.output id g (some (.data d)) alive))
    (hm : Move fails w a b) (hids : Ids a.1 a.2) (hptys : Ptys a.1 a.2) (h : Linked x a.1 a.2) :
    Linked x b.1 b.2 := by
  cases hm with
  | waits script now =>
    exact h.still hids (List.append_nil _).symm nofun nofun rfl rfl (fun _ _ hf => Or.inl hf)
      fun _ _ hf => Or.inl hf
  | stops => exact h.handles hids .stop (Or.inr rfl)
  | handles cmd => exact h.handles hids cmd (Or.inl rfl)
  | takes hp => exact h.still hids rfl (by simp) (by simp) rfl rfl nofun nofun
  | pops hp => exact h.still hids (List.append_nil _).symm nofun nofun rfl rfl nofun nofun
  | dials => exact h.still hids rfl (by simp) (by simp) rfl rfl nofun nofun
  | connects hd => exact h.still hids rfl (by simp) (by simp) rfl rfl nofun nofun
  | rests hd hup hbusy => exact h.still hids rfl (by simp) (by simp) rfl rfl nofun nofun
  | @loses v f s reason hf =>
    refine h.frame hids rfl (by simp) (by simp) (fun id e hm => ?_)
      (fun pre id status post hcut => ?_) rfl (fun id slot' hs => ?_) nofun nofun
    · obtain ⟨id', hid, heq⟩ := List.mem_map.mp hm
      cases heq
      exact Option.isSome_iff_exists.mp ((s.mem_keys id).mp hid)
    · have hm : .owner id (.exited status) ∈
          s.slots.keys.map (TermEffect.owner · (.detached reason)) :=
        hcut ▸ List.mem_append_right _ List.mem_cons_self
      simp at hm
    · obtain ⟨slot, hold, rfl⟩ := slot_map_detach (s := s) rfl hs
      exact ⟨slot, hold, rfl, Or.inl rfl⟩
  | @attachesAgain v s id slot zellij hl hs hp =>
    refine h.still hids rfl (by simp) (by simp) rfl rfl ?_ nofun
    rintro id' g ⟨⟩
    exact Or.inr ⟨slot, hs, rfl⟩
  | @attachesNew reply s spec zellij hl =>
    refine h.still hids (List.append_assoc ..) (by simp) (by simp) rfl rfl nofun ?_
    rintro id' spec' ⟨⟩
    exact Or.inr fun y hy hid => Nat.lt_irrefl _ (hids.names y hy _ hid)
  | failsAgain hf => exact h.still hids (List.append_nil _).symm nofun nofun rfl rfl nofun nofun
  | failsNew => exact h.still hids (List.append_nil _).symm nofun nofun rfl rfl nofun nofun
  | @attachedAgain v s id g spec =>
    have hfresh := h.again id g rfl
    obtain ⟨new, hc, hsome⟩ := creates_again s id g spec
    exact h.creates hptys hc hfresh (fun slot' hs' => Or.inl (hsome slot' hs')) rfl
  | @attachedNew reply s id spec =>
    obtain ⟨hcreated, hnone⟩ := h.new id spec rfl
    exact h.creates hptys (creates_new s id spec reply)
      (fun p g' spec' hm => absurd hm (hcreated p g' spec')) (fun _ _ => Or.inr hnone) rfl
  | refuses => exact h.still hids rfl (by simp) (by simp) rfl rfl nofun nofun
  | delivers hheard => exact absurd hheard.wake (hw _ _ _ _)
  | exits hheard =>
    refine h.ends hids hheard.found rfl nofun rfl (fun id' he => ?_) (Or.inl ?_) rfl
    · rw [slot_dropSlot, if_neg he, slot_note]
    · rw [slot_dropSlot, if_pos rfl]
  | givesUp hheard hl hq =>
    refine h.ends hids hheard.found rfl nofun rfl (fun id' he => ?_) (Or.inl ?_) rfl
    · rw [slot_dropSlot, if_neg he, slot_note]
    · rw [slot_dropSlot, if_pos rfl]
  | closes hheard hl hq =>
    refine h.ends hids hheard.found rfl nofun rfl (fun id' he => ?_)
      (Or.inr ⟨nofun, _, (slot_setSlot ..).trans (if_pos rfl), rfl, rfl⟩) rfl
    rw [slot_note, slot_setSlot, if_neg he]

/-- Taking an output that no terminal waits for. -/
theorem Linked.pop {o : Option PtyOut} {rest : List Tagged} (h : Linked x d s)
    (hout : x.out = (id, g, o) :: rest) (hstale : o = none ∨ ∀ p, ¬s.Holds id p g) :
    Linked { x with out := rest } d s := by
  refine ⟨h.sourced, h.keys, h.tags, h.generations, h.again, h.new, h.unmade, fun y hy => ?_,
    h.begun, h.exited, fun id' p g' hh => ?_⟩
  · exact h.out y (hout ▸ List.mem_cons_of_mem _ hy)
  · obtain ⟨outs, hsince, hprod⟩ := h.held id' p g' hh
    have hsame : queued x.out id' g' = queued rest id' g' := by
      rw [hout, queued_cons]
      split_ifs with heq
      · obtain ⟨rfl, rfl⟩ := heq
        rw [hstale.resolve_right fun hnot => hnot p hh]
        rfl
      · rfl
    rw [hsame] at hprod
    exact ⟨outs, hsince, hprod⟩

theorem Since.deliver {outs : List (List UInt8)} {data : List UInt8} (h : Since log id p g outs) :
    Since (log ++ [.owner id (.output data)]) id p g (outs ++ [data]) := by
  obtain ⟨pre, spec, post, rfl, hlast, hpost⟩ := h
  refine ⟨pre, spec, post ++ [.owner id (.output data)], by simp, fun p' g' spec' hm => ?_, ?_⟩
  · exact hlast p' g' spec' (by simpa using hm)
  · rw [owned_append, hpost]
    simp [owned]

/-- The next output of the PTY that a terminal is attached to reaches the owner. -/
theorem Linked.deliver {data : List UInt8} {rest : List Tagged} (h : Linked x .top s)
    (hout : x.out = (id, g, some (.data data)) :: rest) (hh : s.Holds id p g) :
    Linked { x with out := rest } .top (s.note (.owner id (.output data))) := by
  obtain ⟨outs, hsince, hprod⟩ := h.held id p g hh
  obtain ⟨slot, hs, hp, hg⟩ := hh
  have hmem : ∀ p id' g' spec', .created p id' g' spec' ∈ (s.note (.owner id (.output data))).log →
      .created p id' g' spec' ∈ s.log := by
    intro p id' g' spec' hm
    simpa [note] using hm
  have howned : ∀ id', id ≠ id' → owned [.owner id (.output data)] id' = [] := by
    intro id' he
    simp [owned, he]
  constructor
  case sourced =>
    refine h.sourced.append (fun id' hne => ?_) (fun id' status hm => ?_)
      (fun pre id' status post hcut => ?_) (fun mid id' d post hcut => ?_)
    · by_cases he : id = id'
      · exact Or.inr (he ▸ h.begun id slot hs)
      · exact absurd (howned id' he) hne
    · refine howned id' fun he => ?_
      exact h.exited id' status slot hm (he ▸ hs)
    · have hm : .owner id' (.exited status) ∈ [TermEffect.owner id (.output data)] := by
        rw [hcut]
        simp
      cases List.mem_singleton.mp hm
    · rcases mid with _ | ⟨y, mid⟩
      · cases hcut
        rw [List.append_nil]
        refine ⟨p, g, outs, hsince, queued rest id g ++ x.waiting p, ?_⟩
        rw [hprod, hout, queued_cons, if_pos ⟨rfl, rfl⟩]
        simp
      · simp at hcut
  case keys =>
    exact fun p p' id g spec spec' hm hm' =>
      h.keys p p' id g spec spec' (hmem _ _ _ _ hm) (hmem _ _ _ _ hm')
  case tags =>
    exact fun p id g spec id' g' spec' hm hm' =>
      h.tags p id g spec id' g' spec' (hmem _ _ _ _ hm) (hmem _ _ _ _ hm')
  case generations =>
    exact fun p id g spec slot hm => h.generations p id g spec slot (hmem _ _ _ _ hm)
  case again => rintro _ _ ⟨⟩
  case new => rintro _ _ ⟨⟩
  case unmade => exact h.unmade
  case out =>
    intro y hy
    obtain ⟨p, spec, hm⟩ := h.out y (hout ▸ List.mem_cons_of_mem _ hy)
    exact ⟨p, spec, List.mem_append_left _ hm⟩
  case begun => exact fun id' slot' hs' => (h.begun id' slot' hs').append
  case exited =>
    intro id' status slot' hm
    exact h.exited id' status slot' (by simpa [note] using hm)
  case held =>
    intro id' p' g' hh'
    by_cases he : id = id'
    · subst he
      obtain ⟨slot', hs', hp', rfl⟩ := hh'
      cases hs.symm.trans hs'
      cases hp.symm.trans hp'
      subst hg
      refine ⟨outs ++ [data], hsince.deliver, ?_⟩
      rw [hprod, hout, queued_cons, if_pos ⟨rfl, rfl⟩]
      simp
    · obtain ⟨outs', hsince', hprod'⟩ := h.held id' p' g' hh'
      refine ⟨outs', hsince'.append (by simp) (howned id' he), ?_⟩
      rw [hprod', hout, queued_cons, if_neg fun heq => he heq.1]
      rfl

theorem body_output {turn : Turn} {o : Option PtyOut} {alive : Bool} (hp : s.pending = [])
    (hw : turn.wake = .output id g o alive) :
    body { s with now := s.now + turn.elapsed, script := turn.script } turn =
      output { s with now := s.now + turn.elapsed, script := turn.script } id g o alive := by
  simp only [body, hp, hw]

/-- An output that no terminal waits for changes nothing. -/
theorem step_stale {turn : Turn} {o : Option PtyOut} {alive : Bool} (he : s.ended = false)
    (hp : s.pending = []) (hw : turn.wake = .output id g o alive) (hstale : ∀ p, ¬s.Holds id p g) :
    s.step turn = { s with now := s.now + turn.elapsed, script := turn.script } := by
  have hslot : Terms.slot { s with now := s.now + turn.elapsed, script := turn.script } id =
    s.slot id := rfl
  unfold step
  rw [if_neg (by simp [he]), body_output hp hw]
  unfold output
  rw [hslot]
  cases hs : s.slot id with
  | none => rfl
  | some slot =>
    have hg : (slot.generation ≠ g || slot.pty.isNone) = true := by
      by_contra hg
      simp only [Bool.or_eq_true, decide_eq_true_eq, not_or, Bool.not_eq_true, ne_eq, not_not,
        Option.isNone_eq_false_iff] at hg
      obtain ⟨hgen, hpty⟩ := hg
      obtain ⟨p, hpty⟩ := Option.isSome_iff_exists.mp hpty
      exact hstale p ⟨slot, hs, hpty, hgen⟩
    simp only [if_pos hg]

/-- What a turn does with an output: it delivers it, or no terminal waits for it. -/
theorem step_output {turn : Turn} {o : PtyOut} {alive : Bool} (he : s.ended = false)
    (hp : s.pending = []) (hw : turn.wake = .output id g (some o) alive) :
    (∃ p data, s.Holds id p g ∧ o = .data data ∧
      s.step turn = { s with now := s.now + turn.elapsed, script := turn.script }.note
        (.owner id (.output data))) ∨
    (s.step turn = { s with now := s.now + turn.elapsed, script := turn.script } ∧
      ∀ p, ¬s.Holds id p g) ∨
    (∃ status, o = .exit status) ∧ ∀ p, ¬(s.step turn).Holds id p g := by
  by_cases hheld : ∃ p, s.Holds id p g
  · obtain ⟨p, slot, hs, hpty, hgen⟩ := hheld
    have hslot : Terms.slot { s with now := s.now + turn.elapsed, script := turn.script } id =
      some slot := hs
    have hg : ¬(slot.generation ≠ g || slot.pty.isNone) = true := by simp [hpty, hgen]
    unfold step
    rw [if_neg (by simp [he]), body_output hp hw]
    unfold output
    rw [hslot]
    simp only [if_neg hg]
    cases o with
    | data data => exact Or.inl ⟨p, data, ⟨slot, hs, hpty, hgen⟩, rfl, rfl⟩
    | exit status =>
      refine Or.inr (Or.inr ⟨⟨status, rfl⟩, ?_⟩)
      rintro p ⟨slot', hs', -⟩
      have hnone : ∀ t : Terms, t.slot id = none → t.idleIfEmpty.slot id = none := by
        intro t ht
        unfold idleIfEmpty
        split_ifs
        · exact ht
        · exact ht
      have hdrop := hnone (({ s with now := s.now + turn.elapsed, script := turn.script }.note
        (.owner id (.exited status))).dropSlot id) ((slot_dropSlot ..).trans (if_pos rfl))
      cases hdrop.symm.trans hs'
  · have hstale : ∀ p, ¬s.Holds id p g := fun p hh => hheld ⟨p, hh⟩
    exact Or.inr (Or.inl ⟨step_stale he hp hw hstale, hstale⟩)

section Runs

variable {cfg : HostConfig} {turns : List Turn}

theorem run_ids (he : (run cfg turns).ended = false) : Ids .top (run cfg turns) :=
  (run_rule cfg (ids_init cfg) (fun _ _ _ _ => Ids.move) (fun _ h => h.next) turns).1 he

theorem run_ptys (he : (run cfg turns).ended = false) : Ptys .top (run cfg turns) :=
  ((run_rule (I := fun d s => Ids d s ∧ Ptys d s) cfg ⟨ids_init cfg, ptys_init cfg⟩
    (fun _ _ _ _ hm h => ⟨h.1.move hm, h.2.move hm h.1⟩) (fun _ h => ⟨h.1.next, h.2.next⟩)
    turns).1 he).2

/-- What holds of the task and its PTYs at any time. -/
structure Wired.Sound (cfg : HostConfig) (s : Wired) : Prop where
  runs : ∃ turns, s.terms = Terms.run cfg turns
  sourced : Sourced s.wires.produced s.terms.log
  linked : s.terms.ended = false → Linked s.wires .top s.terms

theorem Sourced.mono {produced produced' : ℕ → List PtyOut} (h : Sourced produced log)
    (hgrow : ∀ p, produced p <+: produced' p) : Sourced produced' log := by
  refine ⟨h.begins, h.ends, fun pre id d post hcut => ?_⟩
  obtain ⟨p, g, outs, hsince, hpre⟩ := h.outputs pre id d post hcut
  exact ⟨p, g, outs, hsince, hpre.trans (hgrow p)⟩

theorem port_created (h : port log p = some (id, g)) : ∃ spec, .created p id g spec ∈ log := by
  obtain ⟨y, hy, hsome⟩ := List.exists_of_findSome?_eq_some h
  cases y with
  | created p' id' g' spec =>
    simp only at hsome
    split_ifs at hsome with heq
    cases hsome
    exact ⟨spec, heq ▸ hy⟩
  | _ => cases hsome

/-- A turn that is not woken by an output keeps the invariant, and so does one woken by an output
that is not delivered. -/
theorem Linked.turn (turn : Turn) (hs : s.Shaped) (he : s.ended = false) (hids : Ids .top s)
    (hptys : Ptys .top s) (h : Linked x .top s)
    (hw : ∀ id g d alive, s.woken turn ≠ some (.output id g (some (.data d)) alive)) :
    Sourced x.produced (s.step turn).log ∧
      ((s.step turn).ended = false → Linked x .top (s.step turn)) := by
  obtain ⟨d, t, hc, hend⟩ := chain_step turn hs he
  obtain ⟨-, -, ht⟩ : Ids d t ∧ Ptys d t ∧ Linked x d t :=
    chain_rule (I := fun d t => Ids d t ∧ Ptys d t ∧ Linked x d t)
      (fun a b hm hi => ⟨hi.1.move hm, hi.2.1.move hm hi.1, hi.2.2.move hw hm hi.1 hi.2.1⟩)
      hc ⟨hids, hptys, h⟩
  rcases hend with ⟨hd, hstep⟩ | ⟨hd, hstep⟩ <;> rw [hstep]
  · refine ⟨ht.sourced, fun _ => ?_⟩
    rcases hd with rfl | rfl
    · exact ht
    · exact ⟨ht.sourced, ht.keys, ht.tags, ht.generations, nofun, nofun, ht.unmade, ht.out,
        ht.begun, ht.exited, ht.held⟩
  · obtain ⟨sent, hsent, hclose⟩ := closeAll_log t
    have hquiet : ∀ id e, .owner id e ∉ sent := by
      intro id e hm
      obtain ⟨p, msg, heq⟩ := hclose _ hm
      cases heq
    refine ⟨?_, nofun⟩
    rw [hsent]
    refine ht.sourced.append (fun id hne => ?_) (fun id status _ => ?_)
      (fun pre id status post hcut => ?_) (fun mid id d post hcut => ?_)
    · exact absurd (owned_eq_nil_iff.mpr (hquiet id)) hne
    · exact owned_eq_nil_iff.mpr (hquiet id)
    · exact absurd (by rw [hcut]; simp) (hquiet id (.exited status))
    · exact absurd (by rw [hcut]; simp) (hquiet id (.output d))

/-- A PTY only produces more. -/
theorem produced_grows (produced : ℕ → List PtyOut) (p : ℕ) (o : PtyOut) (q : ℕ) :
    produced q <+: Function.update produced p (produced p ++ [o]) q := by
  by_cases hq : q = p
  · subst hq
    rw [Function.update_self]
    exact ⟨[o], rfl⟩
  · have heq := Function.update_of_ne hq (produced p ++ [o]) produced
    exact ⟨[], by rw [heq, List.append_nil]⟩

theorem Linked.produces (h : Linked x d s) (hptys : Ptys d s) (o : PtyOut)
    (hport : port s.log p = some (id, g)) : Linked { x with
      produced := Function.update x.produced p (x.produced p ++ [o])
      waiting := Function.update x.waiting p (x.waiting p ++ [o]) } d s := by
  obtain ⟨spec, hcreated⟩ := port_created hport
  refine ⟨h.sourced.mono (produced_grows x.produced p o), h.keys, h.tags, h.generations, h.again,
    h.new, fun q hq => ?_, h.out, h.begun, h.exited, fun id' q g' hh => ?_⟩
  · have hne : q ≠ p := Nat.ne_of_gt (Nat.lt_of_lt_of_le (hptys.made p id g spec hcreated) hq)
    simp only [Function.update_of_ne hne]
    exact h.unmade q hq
  · obtain ⟨outs, hsince, hprod⟩ := h.held id' q g' hh
    refine ⟨outs, hsince, ?_⟩
    by_cases hq : q = p
    · subst hq
      simp only [Function.update_self]
      rw [hprod]
      simp
    · simp only [Function.update_of_ne hq]
      exact hprod

theorem Linked.forwards {o : PtyOut} {waiting : List PtyOut} (h : Linked x d s)
    (hport : port s.log p = some (id, g)) (hwait : x.waiting p = o :: waiting) :
    Linked { x with
      waiting := Function.update x.waiting p waiting
      out := x.out ++ [(id, g, some o)] } d s := by
  obtain ⟨spec, hcreated⟩ := port_created hport
  refine ⟨h.sourced, h.keys, h.tags, h.generations, h.again, h.new, fun q hq => ?_, fun y hy => ?_,
    h.begun, h.exited, fun id' q g' hh => ?_⟩
  · have hnone := h.unmade q hq
    have hne : q ≠ p := by
      rintro rfl
      rw [hwait] at hnone
      cases hnone.2
    simp only [Function.update_of_ne hne]
    exact hnone
  · rcases List.mem_append.mp hy with hy | hy
    · exact h.out y hy
    · cases List.mem_singleton.mp hy
      exact ⟨p, spec, hcreated⟩
  · obtain ⟨outs, hsince, hprod⟩ := h.held id' q g' hh
    obtain ⟨spec', hcreated'⟩ := hsince.created
    refine ⟨outs, hsince, ?_⟩
    rw [queued_append, queued_singleton]
    by_cases hq : q = p
    · -- The tag of the output is the one its PTY was created for.
      subst hq
      obtain ⟨rfl, rfl⟩ := h.tags q id g spec id' g' spec' hcreated hcreated'
      simp only [Function.update_self, and_self, if_true]
      rw [hprod, hwait]
      simp
    · have hne : ¬(id = id' ∧ g = g') := by
        rintro ⟨rfl, rfl⟩
        exact hq (h.keys p q id g spec spec' hcreated hcreated')
      simp only [Function.update_of_ne hq]
      rw [if_neg hne, List.append_nil]
      exact hprod

theorem Linked.finishes (h : Linked x d s) (hport : port s.log p = some (id, g))
    (done : ℕ → Bool) : Linked { x with done := done, out := x.out ++ [(id, g, none)] } d s := by
  obtain ⟨spec, hcreated⟩ := port_created hport
  refine ⟨h.sourced, h.keys, h.tags, h.generations, h.again, h.new, h.unmade, fun y hy => ?_,
    h.begun, h.exited, fun id' q g' hh => ?_⟩
  · rcases List.mem_append.mp hy with hy | hy
    · exact h.out y hy
    · cases List.mem_singleton.mp hy
      exact ⟨p, spec, hcreated⟩
  · obtain ⟨outs, hsince, hprod⟩ := h.held id' q g' hh
    refine ⟨outs, hsince, ?_⟩
    rw [queued_append, queued_singleton]
    split_ifs <;> simpa using hprod

/-- What a turn takes from the channel. -/
theorem rest_cases {s : Wired} {turn : Turn} {rest : List Tagged} (h : s.rest turn = some rest) :
    rest = s.wires.out ∧ (∀ id g o alive, s.terms.woken turn ≠ some (.output id g o alive)) ∨
      ∃ id g o alive, s.terms.pending = [] ∧ turn.wake = .output id g o alive ∧
        s.wires.out = (id, g, o) :: rest := by
  unfold Wired.rest at h
  rcases hp : s.terms.pending with _ | ⟨y, pending⟩ <;> rw [hp] at h
  · cases hw : turn.wake with
    | output id g o alive =>
      rw [hw] at h
      rcases hout : s.wires.out with _ | ⟨y, out⟩ <;> rw [hout] at h
      · cases h
      · simp only at h
        split_ifs at h with heq
        cases h
        exact Or.inr ⟨id, g, o, alive, rfl, rfl, by rw [heq]⟩
    | command cmd =>
      rw [hw] at h
      cases h
      exact Or.inl ⟨rfl, by simp [woken, hp, hw]⟩
    | timer =>
      rw [hw] at h
      cases h
      exact Or.inl ⟨rfl, by simp [woken, hp, hw]⟩
  · cases h
    exact Or.inl ⟨rfl, by simp [woken, hp]⟩

theorem Wired.Sound.turn {s : Wired} {turn : Turn} {rest : List Tagged} (h : s.Sound cfg)
    (hrest : s.rest turn = some rest) :
    Wired.Sound cfg { terms := s.terms.step turn, wires := { s.wires with out := rest } } := by
  obtain ⟨turns, hruns⟩ := h.runs
  have hruns' : s.terms.step turn = Terms.run cfg (turns ++ [turn]) := by
    rw [run_concat, hruns]
  cases he : s.terms.ended with
  | true =>
    have hstep : s.terms.step turn = s.terms := by rw [Terms.step, if_pos he]
    refine ⟨⟨_, hruns'⟩, ?_, fun hne => ?_⟩
    · rw [hstep]
      exact h.sourced
    · rw [hstep, he] at hne
      cases hne
  | false =>
    have hl := h.linked he
    have hrun : (Terms.run cfg turns).ended = false := hruns ▸ he
    have hshaped : s.terms.Shaped := hruns ▸ shaped_run hrun
    have hids : Ids .top s.terms := hruns ▸ run_ids hrun
    have hptys : Ptys .top s.terms := hruns ▸ run_ptys hrun
    rcases rest_cases hrest with ⟨rfl, hw⟩ | ⟨id, g, o, alive, hp, hw, hout⟩
    · obtain ⟨hsourced, hlinked⟩ := hl.turn turn hshaped he hids hptys
        fun id g d alive => hw id g _ alive
      exact ⟨⟨_, hruns'⟩, hsourced, hlinked⟩
    · have hwoken : s.terms.woken turn = some (.output id g o alive) := by
        rw [woken, if_pos hp, hw]
      have hmove : Move True none (.top, s.terms) (.top,
          { s.terms with now := s.terms.now + turn.elapsed, script := turn.script }) := .waits ..
      have hwaits := hl.move (by simp) hmove hids hptys
      rcases o with _ | o
      · obtain ⟨hsourced, hlinked⟩ := hl.turn turn hshaped he hids hptys (by simp [hwoken])
        exact ⟨⟨_, hruns'⟩, hsourced, fun hgo => (hlinked hgo).pop hout (Or.inl rfl)⟩
      · rcases step_output he hp hw with ⟨p, data, hh, rfl, hstep⟩ | ⟨hstep, hstale⟩ |
          ⟨⟨status, rfl⟩, hgone⟩
        · have hdeliver := hwaits.deliver hout hh
          rw [← hstep] at hdeliver
          exact ⟨⟨_, hruns'⟩, hdeliver.sourced, fun _ => hdeliver⟩
        · have hpop := hwaits.pop hout (Or.inr hstale)
          rw [← hstep] at hpop
          exact ⟨⟨_, hruns'⟩, hpop.sourced, fun _ => hpop⟩
        · obtain ⟨hsourced, hlinked⟩ := hl.turn turn hshaped he hids hptys (by simp [hwoken])
          exact ⟨⟨_, hruns'⟩, hsourced, fun hgo => (hlinked hgo).pop hout (Or.inr hgone)⟩

theorem Wired.Sound.step {s : Wired} (h : s.Sound cfg) (e : Happening) : (s.step e).Sound cfg := by
  have hptys : s.terms.ended = false → Ptys .top s.terms := by
    obtain ⟨turns, hruns⟩ := h.runs
    rw [hruns]
    exact run_ptys
  cases e with
  | produces p o =>
    rw [Wired.step]
    split_ifs with hif
    · rw [Bool.and_eq_true] at hif
      obtain ⟨⟨id, g⟩, hport⟩ := Option.isSome_iff_exists.mp hif.1
      exact ⟨h.runs, h.sourced.mono (produced_grows s.wires.produced p o),
        fun he => (h.linked he).produces (hptys he) o hport⟩
    · exact h
  | closes p =>
    rw [Wired.step]
    split_ifs
    · exact ⟨h.runs, h.sourced, fun he => ⟨(h.linked he).sourced, (h.linked he).keys,
        (h.linked he).tags, (h.linked he).generations, (h.linked he).again, (h.linked he).new,
        (h.linked he).unmade, (h.linked he).out, (h.linked he).begun, (h.linked he).exited,
        (h.linked he).held⟩⟩
    · exact h
  | forwards p =>
    rw [Wired.step]
    rcases hport : port s.terms.log p with _ | ⟨id, g⟩
    · exact h
    · rcases hwait : s.wires.waiting p with _ | ⟨o, waiting⟩
      · simp only
        split_ifs
        · exact ⟨h.runs, h.sourced, fun he => (h.linked he).finishes hport _⟩
        · exact h
      · exact ⟨h.runs, h.sourced, fun he => (h.linked he).forwards hport hwait⟩
  | turns turn =>
    rw [Wired.step]
    cases hrest : s.rest turn with
    | none => exact h
    | some rest => exact h.turn hrest

theorem start_sound (cfg : HostConfig) : (Wired.start cfg).Sound cfg := by
  have hsourced : Sourced (fun _ => []) (init cfg).log := by
    refine ⟨fun id => Or.inl rfl, fun pre id status post hcut => ?_, fun pre id d post hcut => ?_⟩
    · simp [init] at hcut
    · simp [init] at hcut
  have hempty (x : TermEffect) : x ∉ (init cfg).log := List.not_mem_nil
  refine ⟨⟨[], rfl⟩, hsourced, fun _ => ?_⟩
  constructor
  case sourced => exact hsourced
  case keys => exact fun _ _ _ _ _ _ hm => absurd hm (hempty _)
  case tags => exact fun _ _ _ _ _ _ _ hm => absurd hm (hempty _)
  case generations => exact fun _ _ _ _ _ hm => absurd hm (hempty _)
  case again => rintro _ _ ⟨⟩
  case new => rintro _ _ ⟨⟩
  case unmade => exact fun _ _ => ⟨rfl, rfl⟩
  case out => exact fun _ hy => absurd hy List.not_mem_nil
  case begun =>
    intro id slot hs
    cases (slot_init id cfg).symm.trans hs
  case exited => exact fun _ _ _ hm => absurd hm (hempty _)
  case held =>
    rintro id p g ⟨slot, hs, -⟩
    cases (slot_init id cfg).symm.trans hs

theorem run_sound (cfg : HostConfig) (happenings : List Happening) :
    (Wired.run cfg happenings).Sound cfg := by
  induction happenings using List.reverseRecOn with
  | nil => exact start_sound cfg
  | append_singleton happenings e ih =>
    rw [Wired.run, List.foldl_concat]
    exact ih.step e

/-- In every run of the task and its PTYs: an owner is told first that its terminal is attached,
and nothing after its end; and an output that it is given follows, of all that the PTY of the last
attach of its terminal produced, on what it was given since it was told of that attach. -/
theorem outputs_in_order (cfg : HostConfig) (happenings : List Happening) :
    (∀ id, owned (Wired.run cfg happenings).terms.log id = [] ∨
      ∃ rest, owned (Wired.run cfg happenings).terms.log id = .attached :: rest) ∧
    (∀ pre id status post,
      (Wired.run cfg happenings).terms.log = pre ++ .owner id (.exited status) :: post →
        owned post id = []) ∧
    ∀ pre id d post,
      (Wired.run cfg happenings).terms.log = pre ++ .owner id (.output d) :: post →
        ∃ before p g spec since outs, pre = before ++ .created p id g spec :: since ∧
          (∀ p' g' spec', .created p' id g' spec' ∉ since) ∧
          owned since id = .attached :: outs.map .output ∧
          (outs ++ [d]).map .data <+: (Wired.run cfg happenings).wires.produced p := by
  obtain ⟨-, hsourced, -⟩ := run_sound cfg happenings
  refine ⟨hsourced.begins, hsourced.ends, fun pre id d post hcut => ?_⟩
  obtain ⟨p, g, outs, ⟨before, spec, since, hpre, hlast, hsince⟩, hprod⟩ :=
    hsourced.outputs pre id d post hcut
  exact ⟨before, p, g, spec, since, outs, hpre, hlast, hsince, hprod⟩

end Runs

end MultiAi.Terms
