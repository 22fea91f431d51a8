import Mathlib.Data.List.Basic

/-! # Unwinding

A system takes inputs of several domains and may choose between outcomes. If an input of
one domain leaves what another sees as it was, and its own inputs do the same to states
that look alike, then what a domain sees of a run depends on its own inputs only.
-/

namespace MultiAi.Unwinding

variable {σ ι ο δ : Type*}

/-- A run with the answer to each of its inputs. -/
inductive Runs (takes : σ → ι → σ → ο → Prop) : σ → List (ι × ο) → σ → Prop
  | nil (s : σ) : Runs takes s [] s
  | cons {s₀ s₁ s₂ : σ} {i : ι} {o : ο} {h : List (ι × ο)} : takes s₀ i s₁ o →
      Runs takes s₁ h s₂ → Runs takes s₀ ((i, o) :: h) s₂

/-- The answers to the inputs of a domain. -/
def seen [DecidableEq δ] (dom : ι → δ) (d : δ) (h : List (ι × ο)) : List (ι × ο) :=
  h.filter fun x => dom x.1 = d

/-- States that agree for a domain are told apart by no input. -/
structure Unwinds (takes : σ → ι → σ → ο → Prop) (dom : ι → δ) (d : δ) (agree : σ → σ → Prop)
    (alike : ι → ο → ο → Prop) : Prop where
  symm : ∀ {s s' : σ}, agree s s' → agree s' s
  own : ∀ {s s' s₁ s₁' : σ} {i : ι} {o o' : ο}, agree s s' → dom i = d → takes s i s₁ o →
    takes s' i s₁' o' → agree s₁ s₁' ∧ alike i o o'
  other : ∀ {s s' s₁ : σ} {i : ι} {o : ο}, agree s s' → dom i ≠ d → takes s i s₁ o → agree s₁ s'

section Runs

variable [DecidableEq δ] {takes : σ → ι → σ → ο → Prop} {dom : ι → δ} {d : δ}
  {agree : σ → σ → Prop} {alike : ι → ο → ο → Prop} {s s' s₁ s₁' : σ} {i : ι} {o : ο}
  {h h' rest : List (ι × ο)}

theorem seen_cons_own (hi : dom i = d) : seen dom d ((i, o) :: h) = (i, o) :: seen dom d h :=
  List.filter_cons_of_pos (by simpa using hi)

theorem seen_cons_other (hi : dom i ≠ d) : seen dom d ((i, o) :: h) = seen dom d h :=
  List.filter_cons_of_neg (by simpa using hi)

/-- The inputs of a run that a domain sees. -/
theorem map_seen : (seen dom d h).map Prod.fst = (h.map Prod.fst).filter fun i => dom i = d := by
  rw [seen, List.filter_map]
  rfl

/-- Inputs of other domains are not seen. -/
theorem Unwinds.silent (hu : Unwinds takes dom d agree alike) (hs : agree s s')
    (hr : Runs takes s h s₁) (hseen : seen dom d h = []) : agree s₁ s' := by
  induction hr with
  | nil => exact hs
  | @cons s₀ s₁ s₂ i o h ht _ ih =>
    by_cases hi : dom i = d
    · rw [seen_cons_own hi] at hseen
      cases hseen
    · rw [seen_cons_other hi] at hseen
      exact ih (hu.other hs hi ht) hseen

/-- A run up to the next input of the domain. -/
theorem Unwinds.next (hu : Unwinds takes dom d agree alike) (hs : agree s s')
    (hr : Runs takes s' h s₁') (hseen : seen dom d h = (i, o) :: rest) :
    ∃ s₀ s₁ h', agree s s₀ ∧ takes s₀ i s₁ o ∧ Runs takes s₁ h' s₁' ∧ seen dom d h' = rest := by
  induction hr with
  | nil => cases hseen
  | @cons s₀ s₁ s₂ j p h ht hr ih =>
    by_cases hj : dom j = d
    · rw [seen_cons_own hj] at hseen
      obtain ⟨hhead, hrest⟩ := List.cons.inj hseen
      cases hhead
      exact ⟨s₀, s₁, h, hs, ht, hr, hrest⟩
    · rw [seen_cons_other hj] at hseen
      exact ih (hu.symm (hu.other (hu.symm hs) hj ht)) hseen

/-- Runs in which a domain gives the same inputs end alike for it, and answer it alike. -/
theorem Unwinds.runs (hu : Unwinds takes dom d agree alike) (hs : agree s s')
    (hr : Runs takes s h s₁) (hr' : Runs takes s' h' s₁')
    (hin : (seen dom d h).map Prod.fst = (seen dom d h').map Prod.fst) :
    agree s₁ s₁' ∧
      List.Forall₂ (fun x x' => x.1 = x'.1 ∧ alike x.1 x.2 x'.2) (seen dom d h)
        (seen dom d h') := by
  induction hr generalizing s' h' with
  | nil =>
    have hnone : seen dom d h' = [] := List.map_eq_nil_iff.mp hin.symm
    refine ⟨hu.symm (hu.silent (hu.symm hs) hr' hnone), ?_⟩
    rw [hnone]
    exact .nil
  | @cons s₀ s₁ s₂ i o h ht _ ih =>
    by_cases hi : dom i = d
    · rw [seen_cons_own hi] at hin ⊢
      obtain ⟨⟨i', o'⟩, rest, hseen, hii, hrest⟩ := List.map_eq_cons_iff.mp hin.symm
      simp only at hii
      subst hii
      obtain ⟨t₀, t₁, later, ht₀, ht', hlater, hl⟩ := hu.next hs hr' hseen
      obtain ⟨hagree, halike⟩ := hu.own ht₀ hi ht ht'
      obtain ⟨hend, hrel⟩ := ih hagree hlater (by rw [hl, hrest])
      rw [hseen, ← hl]
      exact ⟨hend, .cons ⟨rfl, halike⟩ hrel⟩
    · rw [seen_cons_other hi] at hin ⊢
      exact ih (hu.other hs hi ht) hr' hin

end Runs

end MultiAi.Unwinding
