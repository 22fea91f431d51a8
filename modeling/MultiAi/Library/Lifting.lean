import MultiAi.Library.Asking

/-! # Programs within programs

A program that may fail stops the one that follows it, and a program over some operations is one
over the operations of any host that has them.
-/

namespace MultiAi

namespace Asking

variable {Op Op' : Type} {Ans : Op → Type} {Ans' : Op' → Type} {ε ρ τ : Type} {σ σ' ν ν' : Type*}

/-- A program and then the next one, unless there is an error. -/
def attempt (p : Asking Op Ans (Except ε ρ)) (f : ρ → Asking Op Ans (Except ε τ)) :
    Asking Op Ans (Except ε τ) :=
  p.bind fun
    | .error e => done (.error e)
    | .ok r => f r

@[simp] theorem attempt_error (e : ε) (f : ρ → Asking Op Ans (Except ε τ)) :
    (done (.error e) : Asking Op Ans (Except ε ρ)).attempt f = done (.error e) := rfl

@[simp] theorem attempt_ok (r : ρ) (f : ρ → Asking Op Ans (Except ε τ)) :
    (done (.ok r) : Asking Op Ans (Except ε ρ)).attempt f = f r := rfl

@[simp] theorem attempt_ask (op : Op) (next : Ans op → Asking Op Ans (Except ε ρ))
    (f : ρ → Asking Op Ans (Except ε τ)) :
    (ask op next).attempt f = ask op fun a => (next a).attempt f := rfl

section Rules

variable {serve : (op : Op) → σ → ν → Ans op × σ} {C : List (Event Ans) → σ → Prop}
  {Q : List (Event Ans) → σ → Except ε τ → Prop} {h : List (Event Ans)} {s : σ}

/-- Where an error is a result of both programs, the first one has to lead to the second. -/
theorem Safe.attempt {p : Asking Op Ans (Except ε ρ)} {f : ρ → Asking Op Ans (Except ε τ)}
    (hp : p.Safe serve C (fun h s r => match r with
      | .error e => Q h s (.error e)
      | .ok r => (f r).Safe serve C Q h s) h s) :
    (p.attempt f).Safe serve C Q h s := by
  apply Safe.bind
  apply hp.here_end.mono
  rintro h s (e | r) ⟨hc, hq⟩
  · exact ⟨hc, hq⟩
  · exact hq

theorem Asks.mono {P P' : Op → Prop} {p : Asking Op Ans ρ} (hp : p.Asks P)
    (h : ∀ op, P op → P' op) : p.Asks P' := by
  induction p with
  | done r => trivial
  | ask op next ih => exact ⟨h op hp.1, fun a => ih a (hp.2 a)⟩

theorem Asks.attempt {P : Op → Prop} {p : Asking Op Ans (Except ε ρ)}
    {f : ρ → Asking Op Ans (Except ε τ)} (hp : p.Asks P) (hf : ∀ r, (f r).Asks P) :
    (p.attempt f).Asks P := by
  apply hp.bind
  rintro (e | r)
  · trivial
  · exact hf r

end Rules

section Cuts

variable {serve : (op : Op) → σ → ν → Ans op × σ} {p : Asking Op Ans (Except ε ρ)}
  {f : ρ → Asking Op Ans (Except ε τ)} {s : σ} {vs : List ν}

/-- The run of a program and the next one: the first is cut, fails, or leads to the second. -/
theorem run_attempt (p : Asking Op Ans (Except ε ρ)) (f : ρ → Asking Op Ans (Except ε τ)) (s : σ)
    (vs : List ν) :
    let first := p.run serve s vs
    (p.attempt f).run serve s vs = match first.result with
      | none => ⟨first.events, first.state, none⟩
      | some (.error e) => ⟨first.events, first.state, some (.error e)⟩
      | some (.ok r) =>
        let last := (f r).run serve first.state (vs.drop first.events.length)
        { last with events := first.events ++ last.events } := by
  intro first
  cases h : first.result with
  | none => exact run_bind_none serve h
  | some r =>
    refine (run_bind_some serve h).trans ?_
    cases r with
    | error e => simp [first]
    | ok r => rfl

variable (serve) in
/-- Where a program ends, one of its runs does. -/
theorem safe_run (p : Asking Op Ans ρ) (s : σ) (h : List (Event Ans)) :
    p.Safe serve (fun _ _ => True) (fun h' s' r => ∃ vs, (p.run serve s vs).state = s' ∧
      (p.run serve s vs).result = some r ∧ h' = h ++ (p.run serve s vs).events) h s := by
  induction p generalizing s h with
  | done r => exact ⟨trivial, [], by simp⟩
  | ask op next ih =>
    refine ⟨trivial, fun v => (ih _ _ _).mono ?_⟩
    rintro h' s' r ⟨vs, hs, hr, rfl⟩
    exact ⟨v :: vs, hs, hr, by simp⟩

variable (serve) in
theorem Asks.events {P : Op → Prop} {p : Asking Op Ans ρ} (hp : p.Asks P) (s : σ) (vs : List ν) :
    ∀ e ∈ (p.run serve s vs).events, P e.1 := by
  induction p generalizing s vs with
  | done r => simp
  | ask op next ih =>
    cases vs with
    | nil => simp
    | cons v vs =>
      rw [run_ask_cons, List.forall_mem_cons]
      exact ⟨hp.1, ih _ (hp.2 _) _ _⟩

/-- Where neither program changes the state. -/
theorem attempt_keeps {P : τ → Prop} (hp : (p.run serve s vs).state = s)
    (hf : ∀ r, (p.run serve s vs).result = some (.ok r) →
      let last := (f r).run serve s (vs.drop (p.run serve s vs).events.length)
      last.state = s ∧ ∀ t, last.result = some (.ok t) → P t) :
    ((p.attempt f).run serve s vs).state = s ∧
      ∀ t, ((p.attempt f).run serve s vs).result = some (.ok t) → P t := by
  rw [run_attempt]
  cases hr : (p.run serve s vs).result with
  | none => exact ⟨hp, by simp⟩
  | some r =>
    cases r with
    | error e => exact ⟨hp, by simp⟩
    | ok r =>
      simp only [hp]
      exact hf r hr

end Cuts

section Answers

/-- A host that answers in any way, and keeps nothing. -/
def anyhow (op : Op) (_ : Unit) (v : (op : Op) → Ans op) : Ans op × Unit := (v op, ())

end Answers

section Lifting

/-- A program, its operations asked of a larger host. -/
def lift (f : Op → Op') (g : ∀ op, Ans' (f op) → Ans op) : Asking Op Ans ρ → Asking Op' Ans' ρ
  | done r => done r
  | ask op next => ask (f op) fun a => (next (g op a)).lift f g

variable {f : Op → Op'} {g : ∀ op, Ans' (f op) → Ans op}

theorem Asks.lift {P : Op' → Prop} {p : Asking Op Ans ρ} (hp : p.Asks fun op => P (f op)) :
    (p.lift f g).Asks P := by
  induction p with
  | done r => trivial
  | ask op next ih => exact ⟨hp.1, fun a => ih _ (hp.2 _)⟩

/-- What is safe on a host is safe on every host that simulates it: `R` relates the two. -/
theorem Safe.lift {serve : (op : Op) → σ → ν → Ans op × σ}
    {serve' : (op : Op') → σ' → ν' → Ans' op × σ'} {C : List (Event Ans) → σ → Prop}
    {C' : List (Event Ans') → σ' → Prop} {Q : List (Event Ans) → σ → ρ → Prop}
    {Q' : List (Event Ans') → σ' → ρ → Prop}
    (R : List (Event Ans) → σ → List (Event Ans') → σ' → Prop)
    (hstep : ∀ h s h' s' op v', R h s h' s' → ∃ v, g op (serve' (f op) s' v').1 = (serve op s v).1 ∧
      R (h ++ [⟨op, (serve op s v).1⟩]) (serve op s v).2
        (h' ++ [⟨f op, (serve' (f op) s' v').1⟩]) (serve' (f op) s' v').2)
    (hC : ∀ h s h' s', R h s h' s' → C h s → C' h' s')
    (hQ : ∀ h s h' s' r, R h s h' s' → Q h s r → Q' h' s' r) {p : Asking Op Ans ρ}
    {h : List (Event Ans)} {s : σ} {h' : List (Event Ans')} {s' : σ'}
    (hp : p.Safe serve C Q h s) (hR : R h s h' s') : (p.lift f g).Safe serve' C' Q' h' s' := by
  induction p generalizing h s h' s' with
  | done r => exact ⟨hC _ _ _ _ hR hp.1, hQ _ _ _ _ _ hR hp.2⟩
  | ask op next ih =>
    refine ⟨hC _ _ _ _ hR hp.1, fun v' => ?_⟩
    obtain ⟨v, ha, hR'⟩ := hstep _ _ _ _ op v' hR
    simp only [ha]
    exact ih _ (hp.2 v) hR'

end Lifting

end Asking

end MultiAi
