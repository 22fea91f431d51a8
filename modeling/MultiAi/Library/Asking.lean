import Mathlib.Data.List.Basic

/-! # Programs that ask a host

A program asks for one operation after another and goes on with the answer. A run reads
how each of them is served; where that list ends, the connection drops.
-/

namespace MultiAi

/-- A program that asks for operations and ends with a result. -/
inductive Asking (Op : Type) (Ans : Op → Type) (ρ : Type) where
  | done (r : ρ)
  | ask (op : Op) (next : Ans op → Asking Op Ans ρ)

namespace Asking

variable {Op : Type} {Ans : Op → Type} {ρ τ : Type} {σ ν : Type*}

/-- Go on with the result of a program. -/
def bind : Asking Op Ans ρ → (ρ → Asking Op Ans τ) → Asking Op Ans τ
  | done r, f => f r
  | ask op next, f => ask op fun a => (next a).bind f

@[simp] theorem bind_done (r : ρ) (f : ρ → Asking Op Ans τ) : (done r).bind f = f r := rfl

@[simp] theorem bind_ask (op : Op) (next : Ans op → Asking Op Ans ρ) (f : ρ → Asking Op Ans τ) :
    (ask op next).bind f = ask op fun a => (next a).bind f := rfl

/-- An operation and its answer. -/
abbrev Event (Ans : Op → Type) := (op : Op) × Ans op

/-- What a run leaves behind; without a result, the connection dropped. -/
structure Run (Ans : Op → Type) (σ : Type*) (ρ : Type) where
  events : List (Event Ans)
  state : σ
  result : Option ρ

variable (serve : (op : Op) → σ → ν → Ans op × σ)

/-- Run a program, each operation served as the list says. -/
def run : Asking Op Ans ρ → σ → List ν → Run Ans σ ρ
  | done r, s, _ => ⟨[], s, some r⟩
  | ask _ _, s, [] => ⟨[], s, none⟩
  | ask op next, s, v :: vs =>
    let rest := (next (serve op s v).1).run (serve op s v).2 vs
    { rest with events := ⟨op, (serve op s v).1⟩ :: rest.events }

@[simp] theorem run_done (r : ρ) (s : σ) (vs : List ν) :
    (done r : Asking Op Ans ρ).run serve s vs = ⟨[], s, some r⟩ := by
  cases vs <;> rfl

@[simp] theorem run_ask_nil (op : Op) (next : Ans op → Asking Op Ans ρ) (s : σ) :
    (ask op next).run serve s [] = ⟨[], s, none⟩ := rfl

@[simp] theorem run_ask_cons (op : Op) (next : Ans op → Asking Op Ans ρ) (s : σ) (v : ν)
    (vs : List ν) :
    (ask op next).run serve s (v :: vs) =
      { (next (serve op s v).1).run serve (serve op s v).2 vs with
        events := ⟨op, (serve op s v).1⟩ ::
          ((next (serve op s v).1).run serve (serve op s v).2 vs).events } := rfl

/-- A program that stops early stops the one that follows it. -/
theorem run_bind_none {p : Asking Op Ans ρ} {f : ρ → Asking Op Ans τ} {s : σ} {vs : List ν}
    (h : (p.run serve s vs).result = none) :
    (p.bind f).run serve s vs = { p.run serve s vs with result := none } := by
  induction p generalizing s vs with
  | done r => cases vs <;> cases h
  | ask op next ih =>
    cases vs with
    | nil => rfl
    | cons v vs =>
      simp only [run_ask_cons] at h
      simp only [bind, run_ask_cons, ih _ h]

/-- A program that ends hands its state and the other servings to the one that follows. -/
theorem run_bind_some {p : Asking Op Ans ρ} {f : ρ → Asking Op Ans τ} {s : σ} {vs : List ν}
    {r : ρ} (h : (p.run serve s vs).result = some r) :
    (p.bind f).run serve s vs =
      let first := p.run serve s vs
      let last := (f r).run serve first.state (vs.drop first.events.length)
      { last with events := first.events ++ last.events } := by
  induction p generalizing s vs with
  | done r' =>
    simp only [run_done, Option.some.injEq] at h
    subst h
    simp only [bind, run_done, List.length_nil, List.drop_zero, List.nil_append]
  | ask op next ih =>
    cases vs with
    | nil => cases h
    | cons v vs =>
      simp only [run_ask_cons] at h
      simp only [bind, run_ask_cons, ih _ h, List.length_cons, List.drop_succ_cons,
        List.cons_append]

section Rules

variable (C : List (Event Ans) → σ → Prop)

/-- However the operations are served, `C` holds of the events and the state before and
after each of them, and `Q` at the end. -/
def Safe (Q : List (Event Ans) → σ → ρ → Prop) : Asking Op Ans ρ → List (Event Ans) → σ → Prop
  | done r, h, s => C h s ∧ Q h s r
  | ask op next, h, s => C h s ∧
      ∀ v : ν, Safe Q (next (serve op s v).1) (h ++ [⟨op, (serve op s v).1⟩]) (serve op s v).2

variable {serve C} {Q : List (Event Ans) → σ → ρ → Prop} {R : List (Event Ans) → σ → τ → Prop}

theorem Safe.here {p : Asking Op Ans ρ} {h : List (Event Ans)} {s : σ}
    (hp : p.Safe serve C Q h s) : C h s := by
  cases p with
  | done r => exact hp.1
  | ask op next => exact hp.1

/-- What is safe however it is served holds of each run, cut or not. -/
theorem Safe.run {p : Asking Op Ans ρ} {h : List (Event Ans)} {s : σ}
    (hp : p.Safe serve C Q h s) (vs : List ν) :
    C (h ++ (p.run serve s vs).events) (p.run serve s vs).state ∧
      ∀ r, (p.run serve s vs).result = some r →
        Q (h ++ (p.run serve s vs).events) (p.run serve s vs).state r := by
  induction p generalizing h s vs with
  | done r =>
    simp only [run_done, List.append_nil]
    exact ⟨hp.1, fun r' hr => Option.some.inj hr ▸ hp.2⟩
  | ask op next ih =>
    cases vs with
    | nil =>
      simp only [run_ask_nil, List.append_nil]
      exact ⟨hp.1, fun r hr => nomatch hr⟩
    | cons v vs =>
      simpa only [run_ask_cons, List.append_assoc, List.singleton_append] using ih _ (hp.2 v) vs

theorem Safe.imp {C' : List (Event Ans) → σ → Prop} {Q' : List (Event Ans) → σ → ρ → Prop}
    {p : Asking Op Ans ρ} {h : List (Event Ans)} {s : σ} (hp : p.Safe serve C Q h s)
    (hC : ∀ h s, C h s → C' h s) (hQ : ∀ h s r, Q h s r → Q' h s r) :
    p.Safe serve C' Q' h s := by
  induction p generalizing h s with
  | done r => exact ⟨hC _ _ hp.1, hQ _ _ _ hp.2⟩
  | ask op next ih => exact ⟨hC _ _ hp.1, fun v => ih _ (hp.2 v)⟩

theorem Safe.mono {Q' : List (Event Ans) → σ → ρ → Prop} {p : Asking Op Ans ρ}
    {h : List (Event Ans)} {s : σ} (hp : p.Safe serve C Q h s)
    (hQ : ∀ h s r, Q h s r → Q' h s r) : p.Safe serve C Q' h s :=
  hp.imp (fun _ _ hc => hc) hQ

theorem Safe.and {Q' : List (Event Ans) → σ → ρ → Prop} {p : Asking Op Ans ρ}
    {h : List (Event Ans)} {s : σ} (hp : p.Safe serve C Q h s) (hp' : p.Safe serve C Q' h s) :
    p.Safe serve C (fun h s r => Q h s r ∧ Q' h s r) h s := by
  induction p generalizing h s with
  | done r => exact ⟨hp.1, hp.2, hp'.2⟩
  | ask op next ih => exact ⟨hp.1, fun v => ih _ (hp.2 v) (hp'.2 v)⟩

theorem Safe.trivial (p : Asking Op Ans ρ) (h : List (Event Ans)) (s : σ) :
    p.Safe serve (fun _ _ => True) (fun _ _ _ => True) h s := by
  induction p generalizing h s with
  | done r => exact ⟨True.intro, True.intro⟩
  | ask op next ih => exact ⟨True.intro, fun v => ih _ _ _⟩

theorem Safe.here_end {p : Asking Op Ans ρ} {h : List (Event Ans)} {s : σ}
    (hp : p.Safe serve C Q h s) : p.Safe serve C (fun h s r => C h s ∧ Q h s r) h s := by
  induction p generalizing h s with
  | done r => exact ⟨hp.1, hp⟩
  | ask op next ih => exact ⟨hp.1, fun v => ih _ (hp.2 v)⟩

/-- A program and then the next one. -/
theorem Safe.bind {p : Asking Op Ans ρ} {f : ρ → Asking Op Ans τ} {h : List (Event Ans)} {s : σ}
    (hp : p.Safe serve C (fun h s r => (f r).Safe serve C R h s) h s) :
    (p.bind f).Safe serve C R h s := by
  induction p generalizing h s with
  | done r => exact hp.2
  | ask op next ih => exact ⟨hp.1, fun v => ih _ (hp.2 v)⟩

/-- Every operation that a program asks for, whatever it is answered, satisfies `P`. -/
def Asks (P : Op → Prop) : Asking Op Ans ρ → Prop
  | done _ => True
  | ask op next => P op ∧ ∀ a, (next a).Asks P

variable {P : Op → Prop}

theorem Asks.bind {p : Asking Op Ans ρ} {f : ρ → Asking Op Ans τ} (hp : p.Asks P)
    (hf : ∀ r, (f r).Asks P) : (p.bind f).Asks P := by
  induction p with
  | done r => exact hf r
  | ask op next ih => exact ⟨hp.1, fun a => ih a (hp.2 a)⟩

/-- What each operation of a program keeps, the program keeps. -/
theorem Asks.safe {I : List (Event Ans) → σ → Prop} {p : Asking Op Ans ρ} {h : List (Event Ans)}
    {s : σ} (hp : p.Asks P) (hI : I h s)
    (hstep : ∀ h s op v, P op → I h s → I (h ++ [⟨op, (serve op s v).1⟩]) (serve op s v).2)
    (hC : ∀ h s, I h s → C h s) : p.Safe serve C (fun h s _ => I h s) h s := by
  induction p generalizing h s with
  | done r => exact ⟨hC _ _ hI, hI⟩
  | ask op next ih => exact ⟨hC _ _ hI, fun v => ih _ (hp.2 _) (hstep _ _ _ v hp.1 hI)⟩

variable (serve) in
/-- Run a program to its end, the operations served one after another. -/
def eval : Asking Op Ans ρ → σ → (ℕ → ν) → ρ
  | done r, _, _ => r
  | ask op next, s, vs =>
    (next (serve op s (vs 0)).1).eval (serve op s (vs 0)).2 fun n => vs (n + 1)

theorem Safe.eval {p : Asking Op Ans ρ} {h : List (Event Ans)} {s : σ}
    (hp : p.Safe serve C Q h s) (vs : ℕ → ν) : ∃ h' s', Q h' s' (p.eval serve s vs) := by
  induction p generalizing h s vs with
  | done r => exact ⟨h, s, hp.2⟩
  | ask op next ih => exact ih _ (hp.2 (vs 0)) _

end Rules

section States

/-- However the operations of a program are served, it ends where `Q` holds. -/
def Meets (Q : σ → ρ → Prop) (p : Asking Op Ans ρ) (s : σ) : Prop :=
  ∀ h, p.Safe serve (fun _ _ => True) (fun _ s r => Q s r) h s

variable {serve} {Q : σ → ρ → Prop} {R : σ → τ → Prop} {p : Asking Op Ans ρ} {s : σ}

theorem Meets.done {r : ρ} (h : Q s r) : (done r : Asking Op Ans ρ).Meets serve Q s :=
  fun _ => ⟨True.intro, h⟩

theorem Meets.ask {op : Op} {next : Ans op → Asking Op Ans ρ}
    (h : ∀ v, (next (serve op s v).1).Meets serve Q (serve op s v).2) :
    (ask op next).Meets serve Q s :=
  fun _ => ⟨True.intro, fun v => h v _⟩

theorem Meets.bind {f : ρ → Asking Op Ans τ} (hp : p.Meets serve Q s)
    (hf : ∀ s r, Q s r → (f r).Meets serve R s) : (p.bind f).Meets serve R s :=
  fun h => Safe.bind ((hp h).mono fun h _ _ hq => hf _ _ hq h)

theorem Meets.mono {Q' : σ → ρ → Prop} (hp : p.Meets serve Q s) (hQ : ∀ s r, Q s r → Q' s r) :
    p.Meets serve Q' s :=
  fun h => (hp h).mono fun _ _ _ hq => hQ _ _ hq

theorem Meets.and {Q' : σ → ρ → Prop} (hp : p.Meets serve Q s) (hp' : p.Meets serve Q' s) :
    p.Meets serve (fun s r => Q s r ∧ Q' s r) s :=
  fun h => (hp h).and (hp' h)

theorem Asks.meets {P : Op → Prop} {I : σ → Prop} (hp : p.Asks P) (hI : I s)
    (hstep : ∀ s op v, P op → I s → I (serve op s v).2) : p.Meets serve (fun s _ => I s) s :=
  fun _ => hp.safe (I := fun _ s => I s) hI (fun _ _ _ _ hop hs => hstep _ _ _ hop hs)
    fun _ _ _ => True.intro

theorem Meets.eval (hp : p.Meets serve Q s) (vs : ℕ → ν) : ∃ s', Q s' (p.eval serve s vs) := by
  obtain ⟨-, s', h⟩ := (hp []).eval vs
  exact ⟨s', h⟩

end States

end Asking

end MultiAi
