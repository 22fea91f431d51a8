import Mathlib.Data.List.Basic

/-! # Traces of partial machines

A machine takes an event only where it is enabled. What each event preserves holds after every
trace, and what the state before an event says of it holds of each event of a trace.
-/

namespace MultiAi.Trace

variable {σ ε : Type*} (step : σ → ε → Option σ)

/-- The state after a list of events that are enabled one after another. -/
def trace : σ → List ε → Option σ
  | s, [] => some s
  | s, e :: es => (step s e).bind fun t => trace t es

variable {step} {s t : σ} {e : ε} {es fs : List ε}

@[simp] theorem trace_nil : trace step s [] = some s := rfl

theorem trace_cons : trace step s (e :: es) = some t ↔
    ∃ u, step s e = some u ∧ trace step u es = some t := by
  rw [trace, Option.bind_eq_some_iff]

theorem trace_append : trace step s (es ++ fs) = some t ↔
    ∃ u, trace step s es = some u ∧ trace step u fs = some t := by
  induction es generalizing s with
  | nil => simp
  | cons e es ih =>
    rw [List.cons_append, trace_cons]
    simp only [ih, trace_cons]
    constructor
    · rintro ⟨u, hu, v, hv, ht⟩
      exact ⟨v, ⟨u, hu, hv⟩, ht⟩
    · rintro ⟨v, ⟨u, hu, hv⟩, ht⟩
      exact ⟨u, hu, v, hv, ht⟩

/-- What the events that may occur preserve. -/
theorem trace_invariant {P : σ → Prop} {Q : ε → Prop}
    (hstep : ∀ s e t, P s → Q e → step s e = some t → P t) (hs : P s) (hQ : ∀ e ∈ es, Q e)
    (h : trace step s es = some t) : P t := by
  induction es generalizing s with
  | nil =>
    cases h
    exact hs
  | cons e es ih =>
    obtain ⟨u, hu, h⟩ := trace_cons.mp h
    obtain ⟨he, hes⟩ := List.forall_mem_cons.mp hQ
    exact ih (hstep s e u hs he hu) hes h

/-- What each event preserves, and says of itself. -/
theorem trace_forall {P : σ → Prop} {Q : ε → Prop}
    (hstep : ∀ s e t, P s → step s e = some t → P t ∧ Q e) (hs : P s)
    (h : trace step s es = some t) : P t ∧ ∀ e ∈ es, Q e := by
  induction es generalizing s with
  | nil =>
    cases h
    exact ⟨hs, nofun⟩
  | cons e es ih =>
    obtain ⟨u, hu, h⟩ := trace_cons.mp h
    obtain ⟨hP, he⟩ := hstep s e u hs hu
    obtain ⟨ht, hes⟩ := ih hP h
    exact ⟨ht, List.forall_mem_cons.mpr ⟨he, hes⟩⟩

/-- A property of the events so far and the state that each event preserves. -/
theorem trace_history {P : List ε → σ → Prop}
    (hstep : ∀ past s e t, P past s → step s e = some t → P (past ++ [e]) t) {past : List ε}
    (hs : P past s) (h : trace step s es = some t) : P (past ++ es) t := by
  induction es generalizing past s with
  | nil =>
    cases h
    rwa [List.append_nil]
  | cons e es ih =>
    obtain ⟨u, hu, h⟩ := trace_cons.mp h
    rw [← List.singleton_append, ← List.append_assoc]
    exact ih (hstep past s e u hs hu) h

end MultiAi.Trace
