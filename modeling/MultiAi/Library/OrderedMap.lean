import Mathlib.Data.List.Basic
import Std.Data.ExtTreeMap

/-! # Finite maps with ordered keys

Lexicographic orders on records used as keys, and the pointwise reading of an
extensional tree map after one function was applied at each key of a list.
-/

namespace MultiAi.OrderedMap

open Std

variable {κ β : Type*}

theorem compareOn_eq_iff {α : Type*} [Ord α] [LawfulEqOrd α] {f : κ → α} {a b : κ} :
    compareOn f a b = .eq ↔ f a = f b := by
  simp only [compareOn, LawfulEqCmp.compare_eq_iff_eq]

theorem compareLex_eq_iff {c d : κ → κ → Ordering} {a b : κ} :
    compareLex c d a b = .eq ↔ c a b = .eq ∧ d a b = .eq := by
  rw [compareLex, Ordering.then_eq_eq]

/-- Keeping some of the keys. -/
theorem getElem?_filter_key [Ord κ] [TransOrd κ] [LawfulEqOrd κ] (f : κ → Bool)
    (m : ExtTreeMap κ β) (a : κ) :
    (m.filter fun k _ => f k)[a]? = if f a then m[a]? else none := by
  cases h : m[a]? with
  | none => simp [h]
  | some b => by_cases hf : f a <;> simp [h, hf]

section Modify

variable [Ord κ] [TransOrd κ]

/-- Apply `f` to the value at every key of a list. -/
def modifyAll (f : β → β) (m : ExtTreeMap κ β) (ks : List κ) : ExtTreeMap κ β :=
  ks.foldl (fun m k => m.modify k f) m

@[simp] theorem modifyAll_nil (f : β → β) (m : ExtTreeMap κ β) : modifyAll f m [] = m := rfl

@[simp] theorem modifyAll_cons (f : β → β) (m : ExtTreeMap κ β) (k : κ) (ks : List κ) :
    modifyAll f m (k :: ks) = modifyAll f (m.modify k f) ks := rfl

variable [LawfulEqOrd κ]

theorem getElem?_modify_eq (f : β → β) (m : ExtTreeMap κ β) (k a : κ) [Decidable (k = a)] :
    (m.modify k f)[a]? = if k = a then m[a]?.map f else m[a]? := by
  rw [ExtTreeMap.getElem?_modify]
  by_cases h : k = a
  · subst h; simp
  · simp [h]

theorem getElem?_modifyAll_of_not_mem (f : β → β) (m : ExtTreeMap κ β) {ks : List κ} {a : κ}
    (h : a ∉ ks) : (modifyAll f m ks)[a]? = m[a]? := by
  classical
  induction ks generalizing m with
  | nil => rfl
  | cons k ks ih =>
    obtain ⟨hk, hks⟩ := not_or.mp (List.mem_cons.not.mp h)
    rw [modifyAll_cons, ih _ hks, getElem?_modify_eq, if_neg (Ne.symm hk)]

theorem getElem?_modifyAll_of_mem (f : β → β) (m : ExtTreeMap κ β) {ks : List κ} {a : κ}
    (hn : ks.Nodup) (h : a ∈ ks) : (modifyAll f m ks)[a]? = m[a]?.map f := by
  classical
  induction ks generalizing m with
  | nil => exact absurd h List.not_mem_nil
  | cons k ks ih =>
    obtain ⟨hk, hn⟩ := List.nodup_cons.mp hn
    rcases List.mem_cons.mp h with rfl | h
    · rw [modifyAll_cons, getElem?_modifyAll_of_not_mem f _ hk, getElem?_modify_eq, if_pos rfl]
    · have hne : k ≠ a := fun e => hk (e ▸ h)
      rw [modifyAll_cons, ih _ hn h, getElem?_modify_eq, if_neg hne]

end Modify

end MultiAi.OrderedMap
