import Mathlib.Data.List.Infix

/-! # Texts within texts

What stands before the first occurrence of a pattern, and where a pattern can occur in a text
that is put together from parts.
-/

namespace MultiAi.Infix

variable {α : Type*} {pat as bs : List α}

/-- A pattern occurs in one of two parts if it has nothing of the second one. -/
theorem infix_append_left (hpat : pat ≠ []) (h : ∀ a ∈ pat, a ∉ bs) :
    pat <:+: as ++ bs ↔ pat <:+: as := by
  refine ⟨fun hp => ?_, List.infix_append_of_infix_left⟩
  rcases List.infix_append_iff_ne_nil.mp hp with hp | hp | ⟨first, last, -, hlast, rfl, -, hp⟩
  · exact hp
  · obtain ⟨a, ha⟩ := List.exists_mem_of_ne_nil pat hpat
    exact absurd (hp.subset ha) (h a ha)
  · obtain ⟨a, ha⟩ := List.exists_mem_of_ne_nil last hlast
    exact absurd (hp.subset ha) (h a (List.mem_append_right _ ha))

/-- A pattern without a separator occurs before it or after it. -/
theorem infix_append_cons {sep : α} (h : sep ∉ pat) :
    pat <:+: as ++ sep :: bs ↔ pat <:+: as ∨ pat <:+: bs := by
  constructor
  · intro hp
    rcases List.infix_append_iff_ne_nil.mp hp with hp | hp | ⟨first, last, -, hlast, rfl, -, hp⟩
    · exact .inl hp
    · rcases List.infix_cons_iff.mp hp with hp | hp
      · cases pat with
        | nil => exact .inl List.nil_infix
        | cons a pat =>
          obtain rfl := (List.cons_prefix_cons.mp hp).1
          exact absurd List.mem_cons_self h
      · exact .inr hp
    · cases last with
      | nil => exact absurd rfl hlast
      | cons a last =>
        obtain rfl := (List.cons_prefix_cons.mp hp).1
        exact absurd (List.mem_append_right _ List.mem_cons_self) h
  · rintro (hp | hp)
    · exact List.infix_append_of_infix_left hp
    · exact List.infix_append_of_infix_right (List.infix_cons_iff.mpr (.inr hp))

variable [DecidableEq α]

/-- The text before the first occurrence of a pattern, or all of it. -/
def before (pat : List α) : List α → List α
  | [] => []
  | a :: as => if pat <+: a :: as then [] else a :: before pat as

/-- A pattern that begins only once occurs first where it was put. -/
theorem before_append {p : α} {ps : List α} (hp : p ∉ ps) (h : ¬ (p :: ps) <:+: as)
    (rest : List α) : before (p :: ps) (as ++ (p :: ps ++ rest)) = as := by
  induction as with
  | nil => rw [List.nil_append, List.cons_append, before, if_pos (by simp)]
  | cons a as ih =>
    have hno : ¬ (p :: ps) <+: a :: (as ++ (p :: ps ++ rest)) := by
      intro hpre
      rw [← List.cons_append] at hpre
      rcases List.prefix_or_prefix_of_prefix hpre (List.prefix_append (a :: as) _) with hin | hout
      · exact h hin.isInfix
      · -- the pattern would begin within itself
        obtain ⟨last, hlast⟩ := hout
        rw [← hlast, List.prefix_append_right_inj] at hpre
        cases last with
        | nil => exact h ⟨[], [], by simpa using hlast.symm⟩
        | cons b last =>
          obtain ⟨rfl, -⟩ := List.cons_prefix_cons.mp hpre
          obtain ⟨rfl, hps⟩ := List.cons.inj hlast
          exact hp (hps ▸ List.mem_append_right _ List.mem_cons_self)
    rw [List.cons_append, before, if_neg hno,
      ih fun hin => h (hin.trans (List.suffix_cons a as).isInfix)]

end MultiAi.Infix
