import Mathlib.Data.List.Induction

/-! # Machines and their runs

A machine takes one input at a time and answers with a list of outputs. A run
reads a list of inputs; its invariants come from those of one step.
-/

namespace MultiAi.Machine

variable {σ ι ο : Type*} (step : σ → ι → σ × List ο)

/-- The state after a list of inputs. -/
def run (s : σ) (is : List ι) : σ := is.foldl (fun s i => (step s i).1) s

/-- Every output of a list of inputs, in order. -/
def outputs : σ → List ι → List ο
  | _, [] => []
  | s, i :: is => (step s i).2 ++ outputs (step s i).1 is

/-- The outputs of each input of a list on its own. -/
def answers : σ → List ι → List (List ο)
  | _, [] => []
  | s, i :: is => (step s i).2 :: answers (step s i).1 is

@[simp] theorem run_nil (s : σ) : run step s [] = s := rfl

@[simp] theorem run_cons (s : σ) (i : ι) (is : List ι) :
    run step s (i :: is) = run step (step s i).1 is := rfl

@[simp] theorem outputs_nil (s : σ) : outputs step s [] = [] := rfl

@[simp] theorem outputs_cons (s : σ) (i : ι) (is : List ι) :
    outputs step s (i :: is) = (step s i).2 ++ outputs step (step s i).1 is := rfl

theorem run_append (s : σ) (is js : List ι) :
    run step s (is ++ js) = run step (run step s is) js := List.foldl_append

theorem outputs_append (s : σ) (is js : List ι) :
    outputs step s (is ++ js) = outputs step s is ++ outputs step (run step s is) js := by
  induction is generalizing s with
  | nil => rfl
  | cons i is ih => simp only [List.cons_append, outputs_cons, run_cons, ih, List.append_assoc]

theorem run_concat (s : σ) (is : List ι) (i : ι) :
    run step s (is ++ [i]) = (step (run step s is) i).1 := run_append step s is [i]

theorem outputs_concat (s : σ) (is : List ι) (i : ι) :
    outputs step s (is ++ [i]) = outputs step s is ++ (step (run step s is) i).2 := by
  rw [outputs_append, outputs_cons, outputs_nil, List.append_nil]

variable {step}

/-- A property that every admitted input preserves holds after every run of
admitted inputs. -/
theorem run_invariant {P : σ → Prop} {Q : ι → Prop}
    (hstep : ∀ s i, P s → Q i → P (step s i).1) {s : σ} {is : List ι} (hs : P s)
    (hQ : ∀ i ∈ is, Q i) : P (run step s is) := by
  induction is generalizing s with
  | nil => exact hs
  | cons i is ih =>
    exact ih (hstep s i hs (hQ i List.mem_cons_self))
      fun j hj => hQ j (List.mem_cons_of_mem _ hj)

/-- A property that every input preserves. -/
theorem run_preserves {P : σ → Prop} (hstep : ∀ s i, P s → P (step s i).1) {s : σ} (hs : P s)
    (is : List ι) : P (run step s is) :=
  run_invariant (Q := fun _ => True) (fun s i hs _ => hstep s i hs) hs fun _ _ => trivial

/-- Every output of a run answers one of its inputs. -/
theorem exists_of_mem_outputs {s : σ} {is : List ι} {o : ο} (h : o ∈ outputs step s is) :
    ∃ s', ∃ i ∈ is, o ∈ (step s' i).2 := by
  induction is generalizing s with
  | nil => cases h
  | cons i is ih =>
    rcases List.mem_append.mp h with h | h
    · exact ⟨s, i, List.mem_cons_self, h⟩
    · obtain ⟨s', j, hj, ho⟩ := ih h
      exact ⟨s', j, List.mem_cons_of_mem _ hj, ho⟩

/-- What every output of a step satisfies, every output of a run does. -/
theorem outputs_forall {P : ο → Prop} (hstep : ∀ s i, ∀ o ∈ (step s i).2, P o) (s : σ)
    (is : List ι) : ∀ o ∈ outputs step s is, P o := by
  intro o ho
  obtain ⟨s', i, -, ho⟩ := exists_of_mem_outputs ho
  exact hstep s' i o ho

/-- What the outputs of every step satisfy while an invariant holds, those of a run do. -/
theorem outputs_invariant {P : σ → Prop} {R : ο → Prop}
    (hstep : ∀ s i, P s → P (step s i).1 ∧ ∀ o ∈ (step s i).2, R o) {s : σ} (hs : P s)
    (is : List ι) : ∀ o ∈ outputs step s is, R o := by
  induction is generalizing s with
  | nil => exact fun _ ho => (List.not_mem_nil ho).elim
  | cons i is ih =>
    obtain ⟨hnext, hout⟩ := hstep s i hs
    intro o ho
    rcases List.mem_append.mp ho with ho | ho
    · exact hout o ho
    · exact ih hnext o ho

/-- A value that no step changes is the same after a run. -/
theorem run_frame {α : Type*} (f : σ → α) (hstep : ∀ s i, f (step s i).1 = f s) (s : σ)
    (is : List ι) : f (run step s is) = f s := by
  induction is generalizing s with
  | nil => rfl
  | cons i is ih => exact (ih _).trans (hstep s i)

/-- A property of the outputs so far and the state that every step preserves. -/
theorem history_invariant {P : List ο → σ → Prop}
    (hstep : ∀ log s i, P log s → P (log ++ (step s i).2) (step s i).1) {log : List ο} {s : σ}
    (h : P log s) (is : List ι) : P (log ++ outputs step s is) (run step s is) := by
  induction is generalizing log s with
  | nil => rwa [outputs_nil, List.append_nil]
  | cons i is ih =>
    rw [outputs_cons, ← List.append_assoc]
    exact ih (hstep log s i h)

/-- Two runs on the same inputs from related states answer alike, input by input. -/
theorem answers_related {R : σ → σ → Prop} {E : List ο → List ο → Prop}
    (hstep : ∀ s s' i, R s s' → R (step s i).1 (step s' i).1 ∧ E (step s i).2 (step s' i).2)
    {s s' : σ} (h : R s s') (is : List ι) :
    R (run step s is) (run step s' is) ∧
      List.Forall₂ E (answers step s is) (answers step s' is) := by
  induction is generalizing s s' with
  | nil => exact ⟨h, .nil⟩
  | cons i is ih =>
    obtain ⟨hR, hE⟩ := hstep s s' i h
    exact ⟨(ih hR).1, .cons hE (ih hR).2⟩

section Logs

variable (step) (enabled : σ → ι → Prop)

/-- The inputs and outputs of a run of enabled inputs, in the order in which they occur. -/
inductive Logs : σ → List (ι ⊕ ο) → σ → Prop
  | nil (s : σ) : Logs s [] s
  | snoc {s s' : σ} {h : List (ι ⊕ ο)} (i : ι) : Logs s h s' → enabled s' i →
      Logs s (h ++ .inl i :: (step s' i).2.map .inr) (step s' i).1

variable {step enabled} {s s' s'' : σ} {h h' : List (ι ⊕ ο)}

theorem Logs.single (i : ι) (hi : enabled s i) :
    Logs step enabled s (.inl i :: (step s i).2.map .inr) (step s i).1 :=
  (Logs.nil s).snoc i hi

theorem Logs.trans (hl : Logs step enabled s h s') (hr : Logs step enabled s' h' s'') :
    Logs step enabled s (h ++ h') s'' := by
  induction hr with
  | nil => simpa using hl
  | snoc i _ hi ih => simpa using ih.snoc i hi

/-- A machine that is watched through `view` goes through the logs of its steps. -/
theorem Logs.run {σ' ι' ο' : Type*} {step' : σ' → ι' → σ' × List ο'} {view : σ' → σ}
    {seen : σ' → ι' → List (ι ⊕ ο)} {P : σ' → Prop} {Q : ι' → Prop}
    (hstep : ∀ x i, P x → Q i → P (step' x i).1 ∧
      Logs step enabled (view x) (seen x i) (view (step' x i).1)) {x : σ'} {is : List ι'}
    (hx : P x) (hQ : ∀ i ∈ is, Q i) :
    Logs step enabled (view x) (outputs (fun x i => ((step' x i).1, seen x i)) x is)
      (view (Machine.run step' x is)) := by
  induction is generalizing x with
  | nil => exact .nil _
  | cons i is ih =>
    obtain ⟨hx', hl⟩ := hstep x i hx (hQ i List.mem_cons_self)
    exact hl.trans (ih hx' fun j hj => hQ j (List.mem_cons_of_mem _ hj))

/-- A property of the log and the state that every enabled input preserves. -/
theorem Logs.invariant {P : List (ι ⊕ ο) → σ → Prop} (h₀ : P [] s)
    (hstep : ∀ h s i, P h s → enabled s i →
      P (h ++ .inl i :: (step s i).2.map .inr) (step s i).1)
    (hl : Logs step enabled s h s') : P h s' := by
  induction hl with
  | nil => exact h₀
  | snoc i _ hi ih => exact hstep _ _ i ih hi

/-- A log is cut at an input of its run. -/
theorem Logs.cut {q post : List (ι ⊕ ο)} {i : ι} (hl : Logs step enabled s h s')
    (hh : h = q ++ .inl i :: post) :
    ∃ s₁ rest, Logs step enabled s q s₁ ∧ enabled s₁ i ∧
      post = (step s₁ i).2.map .inr ++ rest ∧ Logs step enabled (step s₁ i).1 rest s' := by
  induction hl generalizing post with
  | nil => exact absurd hh (by simp)
  | @snoc s₂ h₂ j hl hj ih =>
    rcases List.append_eq_append_iff.mp hh with ⟨c, rfl, hc⟩ | ⟨c, rfl, hc⟩
    · cases c with
      | nil =>
        simp only [List.nil_append, List.cons.injEq, Sum.inl.injEq] at hc
        obtain ⟨rfl, rfl⟩ := hc
        exact ⟨s₂, [], by simpa using hl, hj, by simp, .nil _⟩
      | cons x c =>
        -- an input is no output
        obtain ⟨-, hc⟩ := List.cons.inj hc
        have hmem : Sum.inl i ∈ (step s₂ j).2.map (Sum.inr : ο → ι ⊕ ο) := hc ▸ by simp
        simp at hmem
    · cases c with
      | nil =>
        simp only [List.nil_append, List.cons.injEq, Sum.inl.injEq] at hc
        obtain ⟨rfl, rfl⟩ := hc
        exact ⟨s₂, [], by simpa using hl, hj, by simp, .nil _⟩
      | cons x c =>
        obtain ⟨rfl, rfl⟩ := List.cons.inj hc
        obtain ⟨s₁, rest, hq, hi, rfl, hrest⟩ := ih rfl
        exact ⟨s₁, _, hq, hi, List.append_assoc .., hrest.snoc j hj⟩

/-- An output of a log answers the input before it. -/
theorem Logs.answer {q post : List (ι ⊕ ο)} {o : ο} (hl : Logs step enabled s h s')
    (hh : h = q ++ .inr o :: post) :
    ∃ h₁ i o₁ o₂ s₁, q = h₁ ++ .inl i :: o₁.map .inr ∧ Logs step enabled s h₁ s₁ ∧
      enabled s₁ i ∧ (step s₁ i).2 = o₁ ++ o :: o₂ := by
  induction hl generalizing post with
  | nil => exact absurd hh (by simp)
  | @snoc s₂ h₂ j hl hj ih =>
    rcases List.append_eq_append_iff.mp hh with ⟨c, rfl, hc⟩ | ⟨c, rfl, hc⟩
    · cases c with
      | nil => cases hc
      | cons x c =>
        obtain ⟨rfl, htail⟩ := List.cons.inj hc
        obtain ⟨o₁, r, hout, rfl, hr⟩ := List.map_eq_append_iff.mp htail
        obtain ⟨o', o₂, rfl, ho, -⟩ := List.map_eq_cons_iff.mp hr
        cases ho
        exact ⟨h₂, j, o₁, o₂, s₂, rfl, hl, hj, hout⟩
    · cases c with
      | nil => cases hc
      | cons x c =>
        obtain ⟨rfl, -⟩ := List.cons.inj hc
        exact ih rfl

end Logs

end MultiAi.Machine
