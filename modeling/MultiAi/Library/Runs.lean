import Mathlib.Order.Bounds.Defs
import Mathlib.Order.Nat
import Mathlib.Data.Nat.Find

/-! # Runs of equal values

In a sequence, the run of equal values that ends at an index, and where it starts.
-/

namespace MultiAi.Runs

variable {α : Type*} (c : ℕ → α)

/-- The values from `j` to `i` are equal. -/
def Constant (j i : ℕ) : Prop := j ≤ i ∧ ∀ k ≤ i, j ≤ k → c k = c i

variable {c} {i j : ℕ}

theorem Constant.refl (i : ℕ) : Constant c i i :=
  ⟨Nat.le_refl i, fun k hk hi => by rw [Nat.le_antisymm hk hi]⟩

theorem constant_succ (hj : j ≤ i) :
    Constant c j (i + 1) ↔ c (i + 1) = c i ∧ Constant c j i := by
  constructor
  · rintro ⟨-, h⟩
    have hi : c i = c (i + 1) := h i (Nat.le_succ i) hj
    exact ⟨hi.symm, hj, fun k hk hjk => (h k (Nat.le_succ_of_le hk) hjk).trans hi.symm⟩
  · rintro ⟨hi, -, h⟩
    refine ⟨Nat.le_succ_of_le hj, fun k hk hjk => ?_⟩
    rcases Nat.le_succ_iff.mp hk with hk | rfl
    · exact (h k hk hjk).trans hi.symm
    · rfl

variable [DecidableEq α]

instance (j i : ℕ) : Decidable (Constant c j i) :=
  inferInstanceAs (Decidable (j ≤ i ∧ ∀ k ≤ i, j ≤ k → c k = c i))

variable (c)

/-- The first index of the longest run of equal values that ends at `i`. -/
def start (i : ℕ) : ℕ := Nat.find (p := fun j => Constant c j i) ⟨i, .refl i⟩

theorem start_isLeast (i : ℕ) : IsLeast (Set.ofPred fun j => Constant c j i) (start c i) :=
  ⟨Nat.find_spec _, fun _ h => Nat.find_min' _ h⟩

theorem start_le (i : ℕ) : start c i ≤ i := (start_isLeast c i).1.1

@[simp] theorem start_zero : start c 0 = 0 := Nat.le_zero.mp (start_le c 0)

variable {c}

/-- A value that repeats the one before it stays in the run. -/
theorem start_succ_of_eq (h : c (i + 1) = c i) : start c (i + 1) = start c i := by
  have hrun : Constant c (start c i) (i + 1) :=
    (constant_succ (start_le c i)).mpr ⟨h, (start_isLeast c i).1⟩
  have hle : start c (i + 1) ≤ start c i := (start_isLeast c (i + 1)).2 hrun
  refine Nat.le_antisymm hle ((start_isLeast c i).2 ?_)
  exact ((constant_succ (Nat.le_trans hle (start_le c i))).mp (start_isLeast c (i + 1)).1).2

/-- A value that differs from the one before it starts a run. -/
theorem start_succ_of_ne (h : c (i + 1) ≠ c i) : start c (i + 1) = i + 1 := by
  rcases Nat.le_succ_iff.mp (start_le c (i + 1)) with hle | heq
  · exact absurd ((constant_succ hle).mp (start_isLeast c (i + 1)).1).1 h
  · exact heq

end MultiAi.Runs
