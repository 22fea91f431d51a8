import Mathlib.Data.List.Basic

/-! # Splitting once

A text is split in two at the first or at the last of its separators.
-/

namespace MultiAi.Split

variable {α : Type*} [DecidableEq α] (sep : α)

/-- What stands before and after the first separator. -/
def splitOnce : List α → Option (List α × List α)
  | [] => none
  | a :: as => if a = sep then some ([], as) else (splitOnce as).map fun (pre, post) => (a :: pre, post)

/-- What stands before and after the last separator. -/
def rsplitOnce : List α → Option (List α × List α)
  | [] => none
  | a :: as =>
    match rsplitOnce as with
    | some (pre, post) => some (a :: pre, post)
    | none => if a = sep then some ([], as) else none

variable {sep} {as pre post : List α}

theorem splitOnce_eq_none : splitOnce sep as = none ↔ sep ∉ as := by
  induction as with
  | nil => simp [splitOnce]
  | cons a as ih =>
    rw [splitOnce]
    split_ifs with ha
    · simp [ha]
    · simp [ih, Ne.symm ha]

theorem splitOnce_eq_some :
    splitOnce sep as = some (pre, post) ↔ as = pre ++ sep :: post ∧ sep ∉ pre := by
  induction as generalizing pre with
  | nil => simp [splitOnce]
  | cons a as ih =>
    rw [splitOnce]
    split_ifs with ha
    · subst ha
      constructor
      · rintro ⟨⟩
        exact ⟨rfl, List.not_mem_nil⟩
      · rintro ⟨heq, hpre⟩
        cases pre with
        | nil =>
          cases heq
          rfl
        | cons b pre =>
          cases (List.cons.inj heq).1
          exact absurd List.mem_cons_self hpre
    · simp only [Option.map_eq_some_iff, Prod.mk.injEq, Prod.exists]
      constructor
      · rintro ⟨pre, post, h, rfl, rfl⟩
        obtain ⟨rfl, hpre⟩ := ih.mp h
        exact ⟨rfl, by simp [hpre, Ne.symm ha]⟩
      · rintro ⟨heq, hpre⟩
        cases pre with
        | nil => exact absurd (List.cons.inj heq).1 ha
        | cons b pre =>
          cases heq
          exact ⟨pre, post, ih.mpr ⟨rfl, fun h => hpre (List.mem_cons_of_mem _ h)⟩, rfl, rfl⟩

theorem splitOnce_append (h : sep ∉ pre) :
    splitOnce sep (pre ++ sep :: post) = some (pre, post) := splitOnce_eq_some.mpr ⟨rfl, h⟩

/-- A text is cut at its first separator in one way. -/
theorem append_inj_of_notMem {pre' post' : List α} (h : pre ++ sep :: post = pre' ++ sep :: post')
    (hpre : sep ∉ pre) (hpre' : sep ∉ pre') : pre = pre' ∧ post = post' := by
  have hsplit : splitOnce sep (pre ++ sep :: post) = some (pre, post) := splitOnce_append hpre
  rw [h, splitOnce_append hpre'] at hsplit
  cases hsplit
  exact ⟨rfl, rfl⟩

theorem rsplitOnce_eq_none : rsplitOnce sep as = none ↔ sep ∉ as := by
  induction as with
  | nil => simp [rsplitOnce]
  | cons a as ih =>
    rw [rsplitOnce]
    cases h : rsplitOnce sep as with
    | none =>
      have hn := ih.mp h
      split_ifs with ha
      · simp [ha]
      · simp [hn, Ne.symm ha]
    | some parts =>
      have hm : sep ∈ as := by
        by_contra hn
        rw [ih.mpr hn] at h
        cases h
      simp [hm]

theorem rsplitOnce_append (h : sep ∉ post) :
    rsplitOnce sep (pre ++ sep :: post) = some (pre, post) := by
  induction pre with
  | nil => rw [List.nil_append, rsplitOnce, rsplitOnce_eq_none.mpr h, if_pos rfl]
  | cons a pre ih => rw [List.cons_append, rsplitOnce, ih]

theorem rsplitOnce_eq_some :
    rsplitOnce sep as = some (pre, post) ↔ as = pre ++ sep :: post ∧ sep ∉ post := by
  constructor
  · intro h
    induction as generalizing pre with
    | nil => cases h
    | cons a as ih =>
      rw [rsplitOnce] at h
      cases hr : rsplitOnce sep as with
      | none =>
        rw [hr] at h
        split_ifs at h with ha
        cases h
        exact ⟨congrArg (· :: post) ha, rsplitOnce_eq_none.mp hr⟩
      | some parts =>
        rw [hr] at h
        cases h
        obtain ⟨rfl, hpost⟩ := ih hr
        exact ⟨rfl, hpost⟩
  · rintro ⟨rfl, h⟩
    exact rsplitOnce_append h

end MultiAi.Split
