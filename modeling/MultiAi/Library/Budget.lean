import MultiAi.Library.Machine
import Mathlib.Algebra.BigOperators.Group.List.Basic
import Mathlib.Algebra.Order.BigOperators.Group.List
import Mathlib.Algebra.Order.Monoid.Defs
import Mathlib.Data.Set.Basic

/-! # What a machine has left to tell

An amount that pays for the outputs of every step pays for those of a whole run. Where each
output is one of a set of things, and a thing that was told is not told again, a run tells
no thing twice.
-/

namespace MultiAi.Machine

variable {σ ι ο : Type*} (step : σ → ι → σ × List ο)

/-- Every step of a run is as `R` says. -/
def Along (R : σ → ι → Prop) : σ → List ι → Prop
  | _, [] => True
  | s, i :: is => R s i ∧ Along R (step s i).1 is

/-- The inputs before the first one that `p` marks. -/
def before (p : σ → ι → Bool) : σ → List ι → List ι
  | _, [] => []
  | s, i :: is => if p s i then [] else i :: before p (step s i).1 is

/-- The inputs from the first one on that `p` marks. -/
def since (p : σ → ι → Bool) : σ → List ι → List ι
  | _, [] => []
  | s, i :: is => if p s i then i :: is else since p (step s i).1 is

/-- Some step of a run is as `R` says. -/
def Sometime (R : σ → ι → Prop) (s : σ) (is : List ι) : Prop :=
  ∃ u i v, is = u ++ i :: v ∧ R (run step s u) i

variable {step} {R : σ → ι → Prop} {p : σ → ι → Bool} {s : σ} {is : List ι}

theorem before_append_since : before step p s is ++ since step p s is = is := by
  induction is generalizing s with
  | nil => rfl
  | cons i is ih =>
    simp only [before, since]
    split_ifs
    · rfl
    · rw [List.cons_append, ih]

theorem Along.of_forall (h : ∀ i ∈ is, ∀ s, R s i) : Along step R s is := by
  induction is generalizing s with
  | nil => trivial
  | cons i is ih =>
    exact ⟨h i List.mem_cons_self s, ih fun j hj => h j (List.mem_cons_of_mem _ hj)⟩

/-- What an invariant and `R` give at each step. -/
theorem Along.imp {R' : σ → ι → Prop} {P : σ → Prop}
    (hstep : ∀ s i, P s → R s i → P (step s i).1 ∧ R' s i) (hs : P s) (h : Along step R s is) :
    Along step R' s is := by
  induction is generalizing s with
  | nil => trivial
  | cons i is ih =>
    obtain ⟨hs', hi⟩ := hstep s i hs h.1
    exact ⟨hi, ih hs' h.2⟩

theorem Along.of_invariant {P : σ → Prop} {Q : ι → Prop}
    (hstep : ∀ s i, P s → Q i → P (step s i).1 ∧ R s i) (hs : P s) (hQ : ∀ i ∈ is, Q i) :
    Along step R s is :=
  Along.imp hstep hs (.of_forall fun i hi _ => hQ i hi)

theorem Along.of_outputs_nil (h : outputs step s is = []) :
    Along step (fun s i => (step s i).2 = []) s is := by
  induction is generalizing s with
  | nil => trivial
  | cons i is ih =>
    obtain ⟨hi, his⟩ := List.append_eq_nil_iff.mp h
    exact ⟨hi, ih his⟩

/-- What is kept by steps as `R` says is kept by a run of them. -/
theorem Along.run {P : σ → Prop} (hstep : ∀ s i, P s → R s i → P (step s i).1) (hs : P s)
    (h : Along step R s is) : P (run step s is) := by
  induction is generalizing s with
  | nil => exact hs
  | cons i is ih => exact ih (hstep s i hs h.1) h.2

/-- What one step brings about and no step undoes holds after the run. -/
theorem Sometime.run {P : σ → Prop} (hset : ∀ s i, R s i → P (step s i).1)
    (hkeep : ∀ s i, P s → P (step s i).1) (h : Sometime step R s is) : P (run step s is) := by
  obtain ⟨u, i, v, rfl, hi⟩ := h
  rw [run_append, run_cons]
  exact run_preserves hkeep (hset _ i hi) v

theorem along_before : Along step (fun s i => p s i = false) s (before step p s is) := by
  induction is generalizing s with
  | nil => trivial
  | cons i is ih =>
    simp only [before]
    split_ifs with h
    · trivial
    · exact ⟨by simpa using h, ih⟩

/-- The first input that is left is one that `p` marks. -/
theorem marked_of_since {i : ι} {is' : List ι} (h : since step p s is = i :: is') :
    p (run step s (before step p s is)) i = true := by
  induction is generalizing s with
  | nil => cases h
  | cons j is ih =>
    simp only [since, before] at h ⊢
    split_ifs at h ⊢ with hp
    · obtain ⟨rfl, -⟩ := List.cons.inj h
      exact hp
    · exact ih h

section Cost

variable {M : Type*} [AddCommMonoid M]

/-- What a list of outputs costs. -/
def cost (w : ο → M) (out : List ο) : M := (out.map w).sum

@[simp] theorem cost_nil (w : ο → M) : cost w [] = 0 := rfl

@[simp] theorem cost_cons (w : ο → M) (o : ο) (out : List ο) :
    cost w (o :: out) = w o + cost w out := by
  simp [cost]

@[simp] theorem cost_append (w : ο → M) (out out' : List ο) :
    cost w (out ++ out') = cost w out + cost w out' := by
  simp [cost]

theorem cost_congr {w w' : ο → M} {out : List ο} (h : ∀ o ∈ out, w o = w' o) :
    cost w out = cost w' out :=
  congrArg List.sum (List.map_congr_left h)

theorem cost_filterMap {β : Type*} (w : β → M) (f : ο → Option β) (out : List ο) :
    cost w (out.filterMap f) = cost (fun o => (f o).elim 0 w) out := by
  induction out with
  | nil => rfl
  | cons o out ih => cases h : f o <;> simp [h, ih]

theorem cost_toNat (q : ο → Bool) (out : List ο) : cost (fun o => (q o).toNat) out = out.countP q := by
  induction out with
  | nil => rfl
  | cons o out ih => cases h : q o <;> simp [cost_cons, ih, h, Nat.add_comm]

variable [PartialOrder M] [IsOrderedAddMonoid M] {w : ο → M} {left : σ → M}

theorem le_cost {out : List ο} (hw : ∀ o ∈ out, 0 ≤ w o) {o : ο} (ho : o ∈ out) :
    w o ≤ cost w out := by
  refine List.single_le_sum (fun x hx => ?_) (w o) (List.mem_map_of_mem ho)
  obtain ⟨o', ho', rfl⟩ := List.mem_map.mp hx
  exact hw o' ho'

/-- What pays for every step pays for the run. -/
theorem cost_outputs_le {P : σ → Prop}
    (hstep : ∀ s i, P s → R s i →
      P (step s i).1 ∧ cost w (step s i).2 + left (step s i).1 ≤ left s)
    (hs : P s) (hR : Along step R s is) :
    P (run step s is) ∧ cost w (outputs step s is) + left (run step s is) ≤ left s := by
  induction is generalizing s with
  | nil => exact ⟨hs, (zero_add _).le⟩
  | cons i is ih =>
    obtain ⟨hs', hle⟩ := hstep s i hs hR.1
    obtain ⟨hrun, ih⟩ := ih hs' hR.2
    refine ⟨hrun, ?_⟩
    calc cost w (outputs step s (i :: is)) + left (run step s (i :: is))
        = cost w (step s i).2 + (cost w (outputs step (step s i).1 is) +
            left (run step (step s i).1 is)) := by
          rw [outputs_cons, cost_append, run_cons, add_assoc]
      _ ≤ cost w (step s i).2 + left (step s i).1 := by gcongr
      _ ≤ left s := hle

end Cost

section Spends

variable {κ : Type*} (name : κ → Option ο)

/-- The outputs are things of `before` that are not in `after`, each told once. -/
structure Spends (before : Set κ) (out : List ο) (after : Set κ) (things : List κ) : Prop where
  names : things.map name = out.map some
  nodup : things.Nodup
  mem : ∀ k ∈ things, k ∈ before
  notMem : ∀ k ∈ things, k ∉ after
  subset : after ⊆ before

variable {name} {A B C : Set κ} {out out' : List ο} {ks ks' : List κ}

theorem Spends.nil (h : B ⊆ A) : Spends name A [] B [] where
  names := rfl
  nodup := .nil
  mem _ hk := (List.not_mem_nil hk).elim
  notMem _ hk := (List.not_mem_nil hk).elim
  subset := h

theorem Spends.single {k : κ} {o : ο} (hk : name k = some o) (hA : k ∈ A) (hB : k ∉ B)
    (h : B ⊆ A) : Spends name A [o] B [k] where
  names := by simp [hk]
  nodup := by simp
  mem := by simpa using hA
  notMem := by simpa using hB
  subset := h

theorem Spends.trans (h : Spends name A out B ks) (h' : Spends name B out' C ks') :
    Spends name A (out ++ out') C (ks ++ ks') where
  names := by rw [List.map_append, List.map_append, h.names, h'.names]
  nodup := by
    refine List.nodup_append.mpr ⟨h.nodup, h'.nodup, ?_⟩
    rintro k hk _ hk' rfl
    exact h.notMem k hk (h'.mem k hk')
  mem k hk := (List.mem_append.mp hk).elim (h.mem k) fun hk => h.subset (h'.mem k hk)
  notMem k hk := (List.mem_append.mp hk).elim (fun hk hC => h.notMem k hk (h'.subset hC))
    (h'.notMem k)
  subset := h'.subset.trans h.subset

/-- The same things, spent from more. -/
theorem Spends.lift {A' B' : Set κ} (h : Spends name A out B ks) (hA : A ⊆ A') (hB : B' ⊆ A')
    (hAB : ∀ k ∈ A, k ∈ B' → k ∈ B) : Spends name A' out B' ks where
  names := h.names
  nodup := h.nodup
  mem k hk := hA (h.mem k hk)
  notMem k hk hk' := h.notMem k hk (hAB k (h.mem k hk) hk')
  subset := hB

/-- A machine whose steps tell things that are left tells none twice; `q` says which of its
outputs are such things. -/
theorem spends_outputs {q : ο → Bool} {P : σ → Prop} {left : σ → Set κ}
    (hstep : ∀ s i, P s → R s i →
      P (step s i).1 ∧ ∃ ks, Spends name (left s) ((step s i).2.filter q) (left (step s i).1) ks)
    (hs : P s) (hR : Along step R s is) :
    ∃ ks, Spends name (left s) ((outputs step s is).filter q) (left (run step s is)) ks := by
  induction is generalizing s with
  | nil => exact ⟨[], .nil subset_rfl⟩
  | cons i is ih =>
    obtain ⟨hs', ks, h⟩ := hstep s i hs hR.1
    obtain ⟨ks', h'⟩ := ih hs' hR.2
    rw [outputs_cons, List.filter_append]
    exact ⟨ks ++ ks', h.trans h'⟩

end Spends

end MultiAi.Machine
