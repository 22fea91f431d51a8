import MultiAi.Terms.Opens

/-! # PTYs are held or released

A PTY that was created is held by the terminal it was created for, as the latest one of that
terminal, or it was released. A terminal that was closed gets no other PTY.
-/

namespace MultiAi.Terms

open Std

/-- A PTY of a terminal is released when it is sent a close, and when its input is dropped: its
owner is told so. -/
def releases (id p : ℕ) : TermEffect → Prop
  | .pty p' .close => p' = p
  | .owner id' (.detached _) => id' = id
  | .owner id' (.exited _) => id' = id
  | _ => False

def Released (id p : ℕ) (log : List TermEffect) : Prop := ∃ x ∈ log, releases id p x

/-- The terminal is attached to the PTY, with this generation. -/
def Holds (s : Terms) (id p g : ℕ) : Prop :=
  ∃ slot, s.slot id = some slot ∧ slot.pty = some p ∧ slot.generation = g

/-- What holds of the PTYs within a turn. -/
structure Ptys (d : Doing) (s : Terms) : Prop where
  below : ∀ id p g, s.Holds id p g → p < s.nextPty
  made : ∀ p id g spec, .created p id g spec ∈ s.log → p < s.nextPty
  unique : ∀ p id g id' g', s.Holds id p g → s.Holds id' p g' → id' = id
  fate : ∀ pre p id g spec post, s.log = pre ++ .created p id g spec :: post →
    (s.Holds id p g ∧ ¬Released id p post ∧ ∀ p' g' spec', .created p' id g' spec' ∉ post) ∨
      Released id p post ∧ ∀ id' g', ¬s.Holds id' p g'
  turns : ∀ pre p id g spec mid p' g' spec' post,
    s.log = (pre ++ .created p id g spec :: mid) ++ .created p' id g' spec' :: post →
      Released id p mid
  again : ∀ id g, d.flight = .again id g → ∀ slot, s.slot id = some slot → slot.pty = none
  closed : ∀ pre id post, s.log = pre ++ .handled (.close id) :: post → id ∈ granted pre →
    (∀ spec zellij, .attach id spec zellij ∉ post) ∧ s.slot id = none

/-- A terminal keeps its PTY, or the PTY is released. -/
def Keeps (s : Terms) (new : List TermEffect) (id p g : ℕ) : Prop :=
  s.Holds id p g ∧ ¬Released id p new ∨ Released id p new ∧ ∀ g', ¬s.Holds id p g'

variable {d d' : Doing} {s s' : Terms} {log new : List TermEffect} {id p g : ℕ} {w : Option Wake}
  {fails : Prop} {a b : Doing × Terms}

theorem Released.append (h : Released id p log) : Released id p (log ++ new) := by
  obtain ⟨x, hx, hr⟩ := h
  exact ⟨x, List.mem_append_left _ hx, hr⟩

theorem released_append :
    Released id p (log ++ new) ↔ Released id p log ∨ Released id p new := by
  simp only [Released, List.mem_append, or_and_right, exists_or]

/-- A move that creates no PTY. -/
theorem Ptys.frame (h : Ptys d s) (hlog : s'.log = s.log ++ new)
    (hcreated : ∀ p id g spec, .created p id g spec ∉ new)
    (hattach : ∀ id spec zellij, .attach id spec zellij ∈ new →
      (∃ slot, s.slot id = some slot) ∨ id ∉ granted s.log)
    (hclose : ∀ pre id post, new = pre ++ .handled (.close id) :: post →
      (∀ spec zellij, .attach id spec zellij ∉ post) ∧ s'.slot id = none)
    (hnext : s'.nextPty = s.nextPty)
    (hslots : ∀ id slot', s'.slot id = some slot' → ∃ slot, s.slot id = some slot ∧
      (slot'.pty = none ∨ slot'.pty = slot.pty ∧ slot'.generation = slot.generation))
    (hkeeps : ∀ id p g, s.Holds id p g → Keeps s' new id p g)
    (hagain : ∀ id g, d'.flight = .again id g →
      d.flight = .again id g ∨ ∀ slot, s.slot id = some slot → slot.pty = none) : Ptys d' s' := by
  have hback : ∀ id p g, s'.Holds id p g → s.Holds id p g := by
    rintro id p g ⟨slot', hs', hp, hg⟩
    obtain ⟨slot, hs, hnone | ⟨hpty, hgen⟩⟩ := hslots id slot' hs'
    · rw [hnone] at hp
      cases hp
    · exact ⟨slot, hs, hpty ▸ hp, hgen ▸ hg⟩
  constructor
  case below =>
    rw [hnext]
    exact fun id p g hh => h.below id p g (hback id p g hh)
  case made =>
    rw [hlog, hnext]
    intro p id g spec hmem
    rcases List.mem_append.mp hmem with hmem | hmem
    · exact h.made p id g spec hmem
    · exact absurd hmem (hcreated p id g spec)
  case unique =>
    exact fun p id g id' g' hh hh' => h.unique p id g id' g' (hback _ _ _ hh) (hback _ _ _ hh')
  case fate =>
    intro pre p id g spec post hcut
    rw [hlog] at hcut
    obtain ⟨mid, hold, rfl⟩ := Log.cut_of_not_mem hcut (hcreated p id g spec)
    rcases h.fate pre p id g spec mid hold with ⟨hh, hr, hlast⟩ | ⟨hr, hfree⟩
    · rcases hkeeps id p g hh with ⟨hh', hr'⟩ | ⟨hr', hfree⟩
      · refine Or.inl ⟨hh', ?_, ?_⟩
        · rw [released_append]
          exact not_or.mpr ⟨hr, hr'⟩
        · intro p' g' spec' hmem
          rcases List.mem_append.mp hmem with hmem | hmem
          · exact hlast p' g' spec' hmem
          · exact hcreated p' id g' spec' hmem
      · refine Or.inr ⟨released_append.mpr (Or.inr hr'), fun id' g' hh' => ?_⟩
        obtain rfl := h.unique p id g id' g' hh (hback _ _ _ hh')
        exact hfree g' hh'
    · exact Or.inr ⟨hr.append, fun id' g' hh' => hfree id' g' (hback _ _ _ hh')⟩
  case turns =>
    intro pre p id g spec mid p' g' spec' post hcut
    rw [hlog] at hcut
    obtain ⟨mid', hold, rfl⟩ := Log.cut_of_not_mem hcut (hcreated p' id g' spec')
    exact h.turns pre p id g spec mid p' g' spec' mid' hold
  case again =>
    intro id g hf slot' hs'
    obtain ⟨slot, hs, hnone | ⟨hpty, -⟩⟩ := hslots id slot' hs'
    · exact hnone
    · rw [hpty]
      rcases hagain id g hf with hf | hnone
      · exact h.again id g hf slot hs
      · exact hnone slot hs
  case closed =>
    intro pre id post hcut hid
    rw [hlog] at hcut
    rcases Log.append_eq_cut.mp hcut with ⟨mid, hold, rfl⟩ | ⟨mid, rfl, hnew⟩
    · obtain ⟨hnone, hslot⟩ := h.closed pre id mid hold hid
      refine ⟨fun spec zellij hmem => ?_, ?_⟩
      · rcases List.mem_append.mp hmem with hmem | hmem
        · exact hnone spec zellij hmem
        · rcases hattach id spec zellij hmem with ⟨slot, hs⟩ | hnot
          · rw [hslot] at hs
            cases hs
          · refine hnot ?_
            rw [hold, granted_append]
            exact List.mem_append_left _ hid
      · by_contra hsome
        obtain ⟨slot', hs'⟩ := Option.ne_none_iff_exists'.mp hsome
        obtain ⟨slot, hs, -⟩ := hslots id slot' hs'
        rw [hslot] at hs
        cases hs
    · exact hclose mid id post hnew

/-- An effect that creates and releases no PTY and closes no terminal. -/
def Plain : TermEffect → Prop
  | .created .. => False
  | .handled (.close _) => False
  | .pty _ .close => False
  | .owner _ (.detached _) => False
  | .owner _ (.exited _) => False
  | _ => True

theorem not_released_of_plain (h : ∀ x ∈ new, Plain x) : ¬Released id p new := by
  rintro ⟨x, hx, hr⟩
  have hplain := h x hx
  unfold releases at hr
  split at hr <;> first | exact hplain | exact hr

/-- A move that changes no slot. -/
theorem Ptys.still (h : Ptys d s) (hlog : s'.log = s.log ++ new) (hplain : ∀ x ∈ new, Plain x)
    (hattach : ∀ id spec zellij, .attach id spec zellij ∈ new →
      (∃ slot, s.slot id = some slot) ∨ id ∉ granted s.log)
    (hnext : s'.nextPty = s.nextPty) (hslots : s'.slots = s.slots)
    (hagain : ∀ id g, d'.flight = .again id g →
      d.flight = .again id g ∨ ∀ slot, s.slot id = some slot → slot.pty = none) : Ptys d' s' := by
  have hslot : ∀ id, s'.slot id = s.slot id := fun id => by rw [slot, slot, hslots]
  refine h.frame hlog (fun p id g spec hmem => hplain _ hmem) hattach ?_ hnext ?_ ?_ hagain
  · intro pre id post hnew
    exact (hplain (.handled (.close id)) (by rw [hnew]; simp)).elim
  · intro id slot' hs
    exact ⟨slot', hslot id ▸ hs, Or.inr ⟨rfl, rfl⟩⟩
  · rintro id p g ⟨slot, hs, hh⟩
    exact Or.inl ⟨⟨slot, (hslot id).trans hs, hh⟩, not_released_of_plain hplain⟩

/-- A move that ends one terminal or detaches it. -/
theorem Ptys.ends {x : TermEffect} (h : Ptys d s) (hlog : s'.log = s.log ++ [x])
    (hx : ∀ p, releases id p x) (hothers : ∀ id' p, releases id' p x → id' = id)
    (hcreated : ∀ p id g spec, x ≠ .created p id g spec)
    (hattach : ∀ id spec zellij, x ≠ .attach id spec zellij)
    (hclose : ∀ id, x ≠ .handled (.close id)) (hnext : s'.nextPty = s.nextPty)
    (hslot : ∀ id', id ≠ id' → s'.slot id' = s.slot id')
    (hend : ∀ slot', s'.slot id = some slot' → slot'.pty = none ∧ ∃ slot, s.slot id = some slot)
    (hagain : ∀ id g, d'.flight ≠ .again id g) : Ptys d' s' := by
  refine h.frame hlog (fun p id g spec hmem => ?_) (fun id spec zellij hmem => ?_) ?_ hnext ?_ ?_
    fun id g hf => absurd hf (hagain id g)
  · exact hcreated p id g spec (List.mem_singleton.mp hmem).symm
  · exact absurd (List.mem_singleton.mp hmem).symm (hattach id spec zellij)
  · intro pre id' post hnew
    have hmem : TermEffect.handled (.close id') ∈ [x] := by
      rw [hnew]
      simp
    exact absurd (List.mem_singleton.mp hmem).symm (hclose id')
  · intro id' slot' hs
    by_cases he : id = id'
    · subst he
      obtain ⟨hnone, slot, hslot⟩ := hend slot' hs
      exact ⟨slot, hslot, Or.inl hnone⟩
    · exact ⟨slot', hslot id' he ▸ hs, Or.inr ⟨rfl, rfl⟩⟩
  · rintro id' p g ⟨slot, hs, hh⟩
    by_cases he : id = id'
    · subst he
      refine Or.inr ⟨⟨x, List.mem_singleton_self x, hx p⟩, ?_⟩
      rintro g' ⟨slot', hs', hp, -⟩
      rw [(hend slot' hs').1] at hp
      cases hp
    · refine Or.inl ⟨⟨slot, (hslot id' he).trans hs, hh⟩, ?_⟩
      rintro ⟨y, hy, hr⟩
      rw [List.mem_singleton.mp hy] at hr
      exact he (hothers id' p hr).symm

/-- What becomes of a new PTY: its terminal gets it and is told so, or it is closed, as the terminal
is gone. -/
inductive Landed (s s' : Terms) (id g : ℕ) : List TermEffect → Prop where

  | held {slot : Slot} {replies : List TermEffect} : s'.slot id = some slot →
      slot.pty = some s.nextPty → slot.generation = g →
      (∀ x ∈ replies, ∃ reply r, x = .reply reply r) →
      Landed s s' id g (.owner id .attached :: replies)

  | closed : s.slot id = none → s'.slot id = none → Landed s s' id g [.pty s.nextPty .close]

/-- A PTY is created for a terminal. -/
structure Creates (s s' : Terms) (id g : ℕ) (spec : AttachSpec) (new : List TermEffect) :
    Prop where
  log : s'.log = s.log ++ .created s.nextPty id g spec :: new
  nextPty : s'.nextPty = s.nextPty + 1
  others : ∀ id', id ≠ id' → s'.slot id' = s.slot id'
  landed : Landed s s' id g new

theorem creates_again (s : Terms) (id g : ℕ) (spec : AttachSpec) :
    let u := { s with link := .up, nextPty := s.nextPty + 1 }.note (.created s.nextPty id g spec)
    ∃ new, Creates s (u.reattached id g s.nextPty) id g spec new ∧
      ∀ slot', (u.reattached id g s.nextPty).slot id = some slot' →
        ∃ slot, s.slot id = some slot := by
  intro u
  rcases attachedAgain_cases s id g spec with ⟨slot, hs, heq⟩ | ⟨hs, heq⟩
  · rw [heq]
    refine ⟨[.owner id .attached], ⟨List.append_assoc .., rfl, fun id' he => ?_, ?_⟩,
      fun _ _ => ⟨slot, hs⟩⟩
    · rw [slot_note, slot_setSlot, if_neg he]
      rfl
    · exact .held ((slot_setSlot ..).trans (if_pos rfl)) rfl rfl nofun
  · rw [heq]
    exact ⟨_, ⟨List.append_assoc .., rfl, fun _ _ => rfl, .closed hs hs⟩,
      fun slot' hs' => nomatch hs.symm.trans hs'⟩

theorem creates_new (s : Terms) (id : ℕ) (spec : AttachSpec) (reply : ℕ) :
    Creates s (((({ s with link := .up, nextPty := s.nextPty + 1 }.note
      (.created s.nextPty id 0 spec)).note (.owner id .attached)).setSlot id
        ⟨spec, some s.nextPty, 0, s.now, 0⟩).note (.reply reply (.ok id))) id 0 spec
      [.owner id .attached, .reply reply (.ok id)] := by
  constructor
  · exact granted_log ..
  · rfl
  · intro id' he
    rw [slot_note, slot_setSlot, if_neg he]
    rfl
  · refine .held ((slot_setSlot ..).trans (if_pos rfl)) rfl rfl fun x hx => ?_
    exact ⟨_, _, List.mem_singleton.mp hx⟩

theorem Landed.mem {x : TermEffect} (h : Landed s s' id g new) (hx : x ∈ new) :
    x = .owner id .attached ∨ (∃ reply r, x = .reply reply r) ∨ x = .pty s.nextPty .close := by
  cases h with
  | held _ _ _ hreplies => exact (List.mem_cons.mp hx).imp_right fun hx => .inl (hreplies x hx)
  | closed => exact .inr (.inr (List.mem_singleton.mp hx))

/-- A PTY of another terminal, or an older one, is not released. -/
theorem Landed.quiet {id' : ℕ} (h : Landed s s' id g new) (hp : p < s.nextPty) :
    ¬Released id' p new := by
  rintro ⟨x, hx, hr⟩
  rcases h.mem hx with rfl | ⟨reply, r, rfl⟩ | rfl
  · exact hr
  · exact hr
  · exact absurd hr (Nat.ne_of_gt hp)

theorem Landed.fate (h : Landed s s' id g new) :
    s'.Holds id s.nextPty g ∧ ¬Released id s.nextPty new ∧
        (∀ p g', s'.Holds id p g' → p = s.nextPty) ∨
      Released id s.nextPty new ∧ ∀ p g', ¬s'.Holds id p g' := by
  cases h with
  | @held slot replies hs hp hg hreplies =>
    refine .inl ⟨⟨slot, hs, hp, hg⟩, ?_, ?_⟩
    · rintro ⟨x, hx, hr⟩
      rcases List.mem_cons.mp hx with rfl | hx
      · exact hr
      · obtain ⟨reply, r, rfl⟩ := hreplies x hx
        exact hr
    · rintro p g' ⟨slot', hs', hp', -⟩
      cases hs.symm.trans hs'
      exact Option.some.inj (hp'.symm.trans hp)
  | closed hs hs' =>
    refine .inr ⟨⟨_, List.mem_singleton_self _, rfl⟩, ?_⟩
    rintro p g' ⟨slot', hslot, -⟩
    cases hs'.symm.trans hslot

/-- A new PTY for a terminal that has none. -/
theorem Ptys.creates {spec : AttachSpec} (h : Ptys d s) (hc : Creates s s' id g spec new)
    (hfree : ∀ p g, ¬s.Holds id p g)
    (hsome : ∀ slot', s'.slot id = some slot' → (∃ slot, s.slot id = some slot) ∨
      id ∉ granted s.log)
    (hagain : ∀ id g, d'.flight ≠ .again id g) : Ptys d' s' := by
  obtain ⟨hlog, hnext, hslot, hlanded⟩ := hc
  have hnew := hlanded.fate
  have hcreated : ∀ p id g spec, .created p id g spec ∉ new := by
    rintro p id g spec hm
    rcases hlanded.mem hm with hx | ⟨_, _, hx⟩ | hx <;> cases hx
  have hback : ∀ id' p g', s'.Holds id' p g' → id = id' ∧ p = s.nextPty ∨ s.Holds id' p g' := by
    rintro id' p g' hh
    by_cases he : id = id'
    · subst he
      rcases hnew with ⟨-, -, hone⟩ | ⟨-, hnone⟩
      · exact Or.inl ⟨rfl, hone p g' hh⟩
      · exact absurd hh (hnone p g')
    · obtain ⟨slot, hs, hh⟩ := hh
      exact Or.inr ⟨slot, hslot id' he ▸ hs, hh⟩
  have hkeep : ∀ id' p g', s.Holds id' p g' → id ≠ id' ∧ s'.Holds id' p g' := by
    rintro id' p g' hh
    have he : id ≠ id' := fun e => hfree p g' (e ▸ hh)
    obtain ⟨slot, hs, hh⟩ := hh
    exact ⟨he, slot, (hslot id' he).trans hs, hh⟩
  constructor
  case below =>
    rw [hnext]
    intro id' p g' hh
    rcases hback id' p g' hh with ⟨-, rfl⟩ | hh
    · exact Nat.lt_succ_self _
    · exact Nat.lt_succ_of_lt (h.below id' p g' hh)
  case made =>
    rw [hlog, hnext]
    intro p id' g' spec' hmem
    rcases List.mem_append.mp hmem with hmem | hmem
    · exact Nat.lt_succ_of_lt (h.made p id' g' spec' hmem)
    · rcases List.mem_cons.mp hmem with heq | hmem
      · cases heq
        exact Nat.lt_succ_self _
      · exact absurd hmem (hcreated p id' g' spec')
  case unique =>
    intro p id₁ g₁ id₂ g₂ hh₁ hh₂
    rcases hback id₁ p g₁ hh₁ with ⟨rfl, hp⟩ | hh₁ <;>
      rcases hback id₂ p g₂ hh₂ with ⟨rfl, hp'⟩ | hh₂
    · rfl
    · exact absurd hp (Nat.ne_of_lt (h.below _ _ _ hh₂))
    · exact absurd hp' (Nat.ne_of_lt (h.below _ _ _ hh₁))
    · exact h.unique p id₁ g₁ id₂ g₂ hh₁ hh₂
  case fate =>
    intro pre p id' g' spec' post hcut
    rw [hlog] at hcut
    rcases Log.append_cons_eq_cut.mp hcut with ⟨mid, hold, rfl⟩ | ⟨-, heq, rfl⟩ | ⟨mid, -, hmid⟩
    · have hp : p < s.nextPty := h.made p id' g' spec' (hold ▸ by simp)
      rcases h.fate pre p id' g' spec' mid hold with ⟨hh, hr, hlast⟩ | ⟨hr, hfree'⟩
      · obtain ⟨he, hh'⟩ := hkeep id' p g' hh
        refine Or.inl ⟨hh', ?_, ?_⟩
        · rw [released_append]
          refine not_or.mpr ⟨hr, ?_⟩
          rintro ⟨x, hx, hrel⟩
          rcases List.mem_cons.mp hx with rfl | hx
          · exact hrel
          · exact hlanded.quiet hp ⟨x, hx, hrel⟩
        · intro p' g'' spec'' hmem
          rcases List.mem_append.mp hmem with hmem | hmem
          · exact hlast p' g'' spec'' hmem
          · rcases List.mem_cons.mp hmem with heq | hmem
            · cases heq
              exact he rfl
            · exact hcreated p' id' g'' spec'' hmem
      · refine Or.inr ⟨hr.append, fun id'' g'' hh => ?_⟩
        rcases hback id'' p g'' hh with ⟨-, rfl⟩ | hh
        · exact absurd hp (Nat.lt_irrefl _)
        · exact hfree' id'' g'' hh
    · cases heq
      rcases hnew with ⟨hh, hr, -⟩ | ⟨hr, hnone⟩
      · exact Or.inl ⟨hh, hr, fun p' g' spec' => hcreated p' id g' spec'⟩
      · refine Or.inr ⟨hr, fun id' g' hh => ?_⟩
        rcases hback id' _ g' hh with ⟨rfl, -⟩ | hh'
        · exact hnone _ g' hh
        · exact absurd (h.below _ _ _ hh') (Nat.lt_irrefl _)
    · exact absurd (hmid ▸ List.mem_append_right _ List.mem_cons_self) (hcreated p id' g' spec')
  case turns =>
    intro pre p id' g' spec' mid p' g'' spec'' post hcut
    rw [hlog] at hcut
    rcases Log.append_cons_eq_cut.mp hcut with ⟨mid', hold, rfl⟩ | ⟨hpre, heq, -⟩ | ⟨mid', -, hmid⟩
    · exact h.turns pre p id' g' spec' mid p' g'' spec'' mid' hold
    · cases heq
      rcases h.fate pre p id g' spec' mid hpre.symm with ⟨hh, -⟩ | ⟨hr, -⟩
      · exact absurd hh (hfree p g')
      · exact hr
    · exact absurd (hmid ▸ List.mem_append_right _ List.mem_cons_self) (hcreated p' id' g'' spec'')
  case again => exact fun id g hf => absurd hf (hagain id g)
  case closed =>
    intro pre id' post hcut hid
    rw [hlog] at hcut
    rcases Log.append_cons_eq_cut.mp hcut with ⟨mid, hold, rfl⟩ | ⟨-, heq, -⟩ | ⟨mid, -, hmid⟩
    · obtain ⟨hnone, hslot'⟩ := h.closed pre id' mid hold hid
      refine ⟨fun spec' zellij hmem => ?_, ?_⟩
      · rcases List.mem_append.mp hmem with hmem | hmem
        · exact hnone spec' zellij hmem
        · rcases List.mem_cons.mp hmem with heq | hmem
          · cases heq
          · rcases hlanded.mem hmem with hx | ⟨_, _, hx⟩ | hx <;> cases hx
      · by_cases he : id = id'
        · subst he
          by_contra hnot
          obtain ⟨slot', hs'⟩ := Option.ne_none_iff_exists'.mp hnot
          rcases hsome slot' hs' with ⟨slot, hs⟩ | hnot
          · rw [hslot'] at hs
            cases hs
          · refine hnot ?_
            rw [hold, granted_append]
            exact List.mem_append_left _ hid
        · rw [hslot id' he]
          exact hslot'
    · cases heq
    · have hmem : .handled (.close id') ∈ new := hmid ▸ List.mem_append_right _ List.mem_cons_self
      rcases hlanded.mem hmem with hx | ⟨_, _, hx⟩ | hx <;> cases hx

theorem Ptys.handles (h : Ptys d s) (cmd : TermCmd)
    (hf : d'.flight = d.flight ∨ d'.flight = .none) : Ptys d' (s.doLocal cmd) := by
  have hc := handles_doLocal s cmd
  obtain ⟨sent, hlog, hsent, hcloses⟩ := hc.log
  refine h.frame hlog (fun p id g spec hmem => ?_) (fun id spec zellij hmem => ?_) ?_ hc.nextPty
    ?_ ?_ ?_
  · rcases List.mem_cons.mp hmem with heq | hmem
    · cases heq
    · obtain ⟨p', msg, heq⟩ := hsent _ hmem
      cases heq
  · rcases List.mem_cons.mp hmem with heq | hmem
    · cases heq
    · obtain ⟨p', msg, heq⟩ := hsent _ hmem
      cases heq
  · intro pre id post hnew
    have hpost : ∀ spec zellij, .attach id spec zellij ∉ .handled cmd :: sent := by
      intro spec zellij hmem
      rcases List.mem_cons.mp hmem with heq | hmem
      · cases heq
      · obtain ⟨p', msg, heq⟩ := hsent _ hmem
        cases heq
    refine ⟨fun spec zellij hmem => hpost spec zellij ?_, ?_⟩
    · rw [hnew]
      exact List.mem_append_right _ (List.mem_cons_of_mem _ hmem)
    · have hmem : .handled (.close id) ∈ .handled cmd :: sent := by
        rw [hnew]
        exact List.mem_append_right _ List.mem_cons_self
      rcases List.mem_cons.mp hmem with heq | hmem
      · cases heq
        exact (hc.closed id rfl).1
      · obtain ⟨p', msg, heq⟩ := hsent _ hmem
        cases heq
  · intro id slot' hs
    obtain ⟨slot, hslot, hsame⟩ := hc.found id slot' hs
    exact ⟨slot, hslot, Or.inr ⟨hsame.pty, hsame.generation⟩⟩
  · rintro id p g ⟨slot, hs, hp, hg⟩
    by_cases hcmd : cmd = .close id
    · obtain ⟨hnone, hsends⟩ := hc.closed id hcmd
      refine Or.inr ⟨⟨.pty p .close, ?_, rfl⟩, ?_⟩
      · have heq := hlog.symm.trans (hsends slot p hs hp)
        rw [List.append_cancel_left heq]
        simp
      · rintro g' ⟨slot', hs', -⟩
        rw [hnone] at hs'
        cases hs'
    · obtain ⟨slot', hs', hsame⟩ := hc.kept id slot hs hcmd
      refine Or.inl ⟨⟨slot', hs', hsame.pty ▸ hp, hsame.generation ▸ hg⟩, ?_⟩
      rintro ⟨x, hx, hr⟩
      rcases List.mem_cons.mp hx with rfl | hx
      · exact hr
      · obtain ⟨p', msg, rfl⟩ := hsent x hx
        cases msg with
        | close =>
          -- The PTY that is sent a close belongs to another terminal.
          cases hr
          obtain ⟨id', other, rfl, hother, hpty⟩ := hcloses p hx
          have hid := h.unique p id g id' other.generation ⟨slot, hs, hp, hg⟩
            ⟨other, hother, hpty, rfl⟩
          exact hcmd (hid ▸ rfl)
        | _ => exact hr
  · intro id g hg
    rcases hf with hf | hf <;> rw [hf] at hg
    · exact Or.inl hg
    · cases hg

/-- A terminal that ends. -/
theorem Ptys.drops {e : TermEvent} (h : Ptys d s) (he : ∃ status, e = .exited status)
    (hagain : ∀ id g, d'.flight ≠ .again id g) :
    Ptys d' ((s.note (.owner id e)).dropSlot id) := by
  obtain ⟨status, rfl⟩ := he
  refine h.ends rfl (fun p => rfl) (fun id' p hr => hr.symm) nofun nofun nofun rfl ?_ ?_ hagain
  · intro id' he
    rw [slot_dropSlot, if_neg he, slot_note]
  · intro slot' hs'
    rw [slot_dropSlot, if_pos rfl] at hs'
    cases hs'

theorem Ptys.move (hm : Move fails w a b) (hids : Ids a.1 a.2) (h : Ptys a.1 a.2) :
    Ptys b.1 b.2 := by
  cases hm with
  | waits script now =>
    exact h.still (List.append_nil _).symm nofun nofun rfl rfl fun _ _ hf => Or.inl hf
  | stops => exact h.handles .stop (Or.inr rfl)
  | handles cmd => exact h.handles cmd (Or.inl rfl)
  | takes hp => exact h.still rfl (by simp [Plain]) (by simp) rfl rfl nofun
  | pops hp => exact h.still (List.append_nil _).symm nofun nofun rfl rfl nofun
  | dials => exact h.still rfl (by simp [Plain]) (by simp) rfl rfl nofun
  | connects hd => exact h.still rfl (by simp [Plain]) (by simp) rfl rfl nofun
  | rests hd hup hbusy => exact h.still rfl (by simp [Plain]) (by simp) rfl rfl nofun
  | @loses v f s reason hf =>
    refine h.frame rfl (by simp) (by simp) ?_ rfl ?_ ?_ nofun
    · intro pre id post hnew
      have hmem : .handled (.close id) ∈ s.slots.keys.map (TermEffect.owner · (.detached reason)) :=
        hnew ▸ List.mem_append_right _ List.mem_cons_self
      simp at hmem
    · intro id slot' hs
      obtain ⟨slot, hold, rfl⟩ := slot_map_detach (s := s) rfl hs
      exact ⟨slot, hold, Or.inl rfl⟩
    · rintro id p g ⟨slot, hs, -⟩
      refine Or.inr ⟨⟨.owner id (.detached reason), ?_, rfl⟩, ?_⟩
      · exact List.mem_map.mpr ⟨id, (s.mem_keys id).mpr (by rw [hs]; rfl), rfl⟩
      · rintro g' ⟨slot', hs', hp, -⟩
        obtain ⟨slot, -, rfl⟩ := slot_map_detach (s := s) rfl hs'
        cases hp
  | @attachesAgain v s id slot zellij hl hs hp =>
    refine h.still rfl (by simp [Plain]) ?_ rfl rfl ?_
    · intro id' spec' zellij' hmem
      cases List.mem_singleton.mp hmem
      exact Or.inl ⟨slot, hs⟩
    · rintro id' g ⟨⟩
      refine Or.inr fun slot' hs' => ?_
      cases hs.symm.trans hs'
      exact hp
  | @attachesNew reply s spec zellij hl =>
    refine h.still (List.append_assoc ..) (by simp [Plain]) ?_ rfl rfl nofun
    intro id' spec' zellij' hmem
    simp only [List.singleton_append, List.mem_cons, List.not_mem_nil, or_false, reduceCtorEq,
      false_or] at hmem
    cases hmem
    refine Or.inr fun hgranted => ?_
    obtain ⟨reply', hx⟩ := mem_granted.mp hgranted
    exact Nat.lt_irrefl s.nextId (hids.names _ hx _ rfl)
  | failsAgain hf => exact h.still (List.append_nil _).symm nofun nofun rfl rfl nofun
  | failsNew => exact h.still (List.append_nil _).symm nofun nofun rfl rfl nofun
  | @attachedAgain v s id g spec =>
    have hfree : ∀ p g, ¬s.Holds id p g := by
      rintro p g' ⟨slot, hs, hp, -⟩
      rw [h.again id g rfl slot hs] at hp
      cases hp
    obtain ⟨new, hc, hsome⟩ := creates_again s id g spec
    exact h.creates hc hfree (fun slot' hs' => Or.inl (hsome slot' hs')) nofun
  | @attachedNew reply s id spec =>
    obtain ⟨-, hnone, hfresh⟩ := hids.new id spec rfl
    refine h.creates (creates_new s id spec reply) ?_ (fun _ _ => Or.inr hfresh.not_granted) nofun
    rintro p g ⟨slot, hs, -⟩
    cases hnone.symm.trans hs
  | refuses => exact h.still rfl (by simp [Plain]) (by simp) rfl rfl nofun
  | delivers hw => exact h.still rfl (by simp [Plain]) (by simp) rfl rfl nofun
  | exits hw => exact h.drops ⟨_, rfl⟩ nofun
  | givesUp hw hl hq => exact h.drops ⟨_, rfl⟩ nofun
  | @closes s id slot hw hl hq =>
    refine h.ends rfl (fun p => rfl) (fun id' p hr => hr.symm) nofun nofun nofun rfl ?_ ?_ nofun
    · intro id' he
      rw [slot_note, slot_setSlot, if_neg he]
    · intro slot' hs'
      rw [slot_note, slot_setSlot, if_pos rfl] at hs'
      cases hs'
      exact ⟨rfl, slot, hw.found⟩

section Runs

theorem ptys_init (cfg : HostConfig) : Ptys .top (init cfg) := by
  have hnone : ∀ id, (init cfg).slot id = none := fun id => slot_init id cfg
  have hfree : ∀ id p g, ¬(init cfg).Holds id p g := by
    rintro id p g ⟨slot, hs, -⟩
    cases (hnone id).symm.trans hs
  constructor
  case below => exact fun id p g hh => absurd hh (hfree id p g)
  case made => exact nofun
  case unique => exact fun p id g id' g' hh => absurd hh (hfree id p g)
  case again => exact nofun
  case fate =>
    intro pre p id g spec post hcut
    simp [init] at hcut
  case turns =>
    intro pre p id g spec mid p' g' spec' post hcut
    simp [init] at hcut
  case closed =>
    intro pre id post hcut
    simp [init] at hcut

theorem Ptys.next (h : Ptys .answered s) : Ptys .top s :=
  ⟨h.below, h.made, h.unique, h.fate, h.turns, nofun, h.closed⟩

/-- A PTY that is held when the task ends is sent a close then. -/
theorem closeAll_closes (hh : s.Holds id p g) :
    ∃ sent, s.closeAll.log = s.log ++ sent ∧ .pty p .close ∈ sent := by
  obtain ⟨slot, hs, hp, -⟩ := hh
  refine ⟨_, rfl, List.mem_filterMap.mpr ⟨(id, slot), ?_, ?_⟩⟩
  · exact ExtTreeMap.mem_toList_iff_getElem?_eq_some.mpr hs
  · simp [hp]

/-- In every run: a PTY that was created is held by its terminal alone, as its latest one, or was
released; a terminal gets another PTY only when the earlier one was released; once the close of a
terminal that was handed out is handled, it does not attach again, its slot is gone and its PTYs
are released; and a task that ends closes the PTYs it still holds. -/
theorem ptys_held_or_released (cfg : HostConfig) (turns : List Turn) :
    (∀ pre p id g spec post, (run cfg turns).log = pre ++ .created p id g spec :: post →
      ((run cfg turns).ended = false ∧ (run cfg turns).Holds id p g ∧
          (∀ id' g', (run cfg turns).Holds id' p g' → id' = id) ∧ ¬Released id p post ∧
          ∀ p' g' spec', .created p' id g' spec' ∉ post) ∨
        Released id p post ∧
          ((run cfg turns).ended = false → ∀ id' g', ¬(run cfg turns).Holds id' p g')) ∧
    (∀ pre p id g spec mid p' g' spec' post, (run cfg turns).log =
        (pre ++ .created p id g spec :: mid) ++ .created p' id g' spec' :: post →
      Released id p mid) ∧
    (∀ pre id post, (run cfg turns).log = pre ++ .handled (.close id) :: post → id ∈ granted pre →
      (∀ spec zellij, .attach id spec zellij ∉ post) ∧ (run cfg turns).slot id = none ∧
        ∀ before p g spec after, (run cfg turns).log = before ++ .created p id g spec :: after →
          Released id p after) ∧
    ((run cfg turns).ended = true →
      ∀ id p g, (run cfg turns).Holds id p g → .pty p .close ∈ (run cfg turns).log) := by
  have hptys := run_rule (I := fun d s => Ids d s ∧ Ptys d s) cfg ⟨ids_init cfg, ptys_init cfg⟩
    (fun _ _ _ _ hm h => ⟨h.1.move hm, h.2.move hm h.1⟩) (fun s h => ⟨h.1.next, h.2.next⟩) turns
  cases he : (run cfg turns).ended with
  | false =>
    obtain ⟨-, hp⟩ := hptys.1 he
    refine ⟨fun pre p id g spec post hcut => ?_, hp.turns, fun pre id post hcut hid => ?_, nofun⟩
    · rcases hp.fate pre p id g spec post hcut with ⟨hh, hr, hlast⟩ | ⟨hr, hfree⟩
      · exact Or.inl ⟨rfl, hh, fun id' g' => hp.unique p id g id' g' hh, hr, hlast⟩
      · exact Or.inr ⟨hr, fun _ => hfree⟩
    · obtain ⟨hattach, hslot⟩ := hp.closed pre id post hcut hid
      refine ⟨hattach, hslot, fun before p g spec after hcut => ?_⟩
      rcases hp.fate before p id g spec after hcut with ⟨⟨slot, hs, -⟩, -⟩ | ⟨hr, -⟩
      · cases hslot.symm.trans hs
      · exact hr
  | true =>
    obtain ⟨d, t, hd, ⟨-, hp⟩, heq⟩ := hptys.2 he
    rw [heq]
    have hfate : ∀ pre p id g spec post, t.closeAll.log = pre ++ .created p id g spec :: post →
        Released id p post := by
      intro pre p id g spec post hcut
      obtain ⟨mid, sent, hold, rfl, hsent, -⟩ := closeAll_cut (by simp) hcut
      rcases hp.fate pre p id g spec mid hold with ⟨hh, -⟩ | ⟨hr, -⟩
      · obtain ⟨sent', hsent', hmem⟩ := closeAll_closes hh
        rw [List.append_cancel_left (hsent.symm.trans hsent')]
        exact ⟨_, List.mem_append_right _ hmem, rfl⟩
      · exact hr.append
    refine ⟨fun pre p id g spec post hcut => Or.inr ⟨hfate pre p id g spec post hcut, nofun⟩,
      ?_, ?_, fun _ id p g hh => ?_⟩
    · intro pre p id g spec mid p' g' spec' post hcut
      obtain ⟨mid', -, hold, -⟩ := closeAll_cut (by simp) hcut
      exact hp.turns pre p id g spec mid p' g' spec' mid' hold
    · intro pre id post hcut hid
      obtain ⟨mid, sent, hold, rfl, -, hclose⟩ := closeAll_cut (by simp) hcut
      obtain ⟨hattach, hslot⟩ := hp.closed pre id mid hold hid
      refine ⟨fun spec zellij hmem => ?_, hslot, fun before p g spec after =>
        hfate before p id g spec after⟩
      rcases List.mem_append.mp hmem with hmem | hmem
      · exact hattach spec zellij hmem
      · obtain ⟨p, msg, hx⟩ := hclose _ hmem
        cases hx
    · obtain ⟨sent, hsent, hmem⟩ := closeAll_closes (s := t) hh
      rw [hsent]
      exact List.mem_append_right _ hmem

end Runs

end MultiAi.Terms
