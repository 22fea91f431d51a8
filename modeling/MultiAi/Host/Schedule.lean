import MultiAi.Host.Task
import MultiAi.Library.Log
import Mathlib.Algebra.Group.Nat.Defs

/-! # The delays between two attempts

A delay doubles with each attempt that fails and starts again when the user resolved a problem
or a probe had been up for long. The task forgets to start again in one place: after the user
replaced a probe that spoke another protocol version.
-/

namespace MultiAi.Host

open Machine

/-- What the delays depend on. -/
inductive Mark where
  /-- An attempt failed, and the next one starts after a delay. -/
  | retrying (retryIn : ℕ)
  /-- A problem of the attempt was left through a retry. -/
  | resolved
  /-- So was a probe of another protocol version. -/
  | replaced
  /-- The link of a probe that had been up for long ended. -/
  | stable
  deriving DecidableEq, Repr

namespace Mark

def isRetrying : Mark → Bool
  | .retrying _ => true
  | _ => false

/-- Where the delays are to start again. -/
def restarts (m : Mark) : Bool := !m.isRetrying

/-- Where the task makes them start again. -/
def resets : Mark → Bool
  | .resolved | .stable => true
  | .retrying _ | .replaced => false

theorem restarts_of_resets (m : Mark) (h : m.resets) : m.restarts := by
  cases m <;> first | rfl | cases h

end Mark

/-- What a change of phase says. -/
def left (now : ℕ) : Phase → Phase → List Mark
  | .waiting .denied, .connecting => [.resolved]
  | .waiting .mismatch, .connecting => [.replaced]
  | .serving upSince, .explaining _ | .acking upSince _, .explaining _
  | .sending upSince _, .explaining _ => if stableAfter ≤ now - upSince then [.stable] else []
  | _, _ => []

def told (effects : List HostEffect) : List Mark :=
  effects.filterMap fun
    | .emit _ (.probe (.retrying retryIn _)) => some (.retrying retryIn)
    | _ => none

def marks (s : Host) (i : Input) : List Mark :=
  left s.now s.phase (s.step i).1.phase ++ told (s.step i).2

/-- The marks of a whole run. -/
def schedule (cfg : HostConfig) (inputs : List Input) : List Mark :=
  outputs (fun s i => ((s.step i).1, s.marks i)) (new cfg).1 inputs

/-- One second, doubled with each attempt that failed before, and a minute at most. -/
def delay (tries : ℕ) : ℕ := min (1000 * 2 ^ tries) 60000

@[simp] theorem delay_zero : delay 0 = Backoff.first := rfl

theorem delay_succ (tries : ℕ) : delay (tries + 1) = min (delay tries * 2) Backoff.max := by
  simp only [delay, Backoff.max, Nat.pow_succ]
  omega

theorem delay_succ_ne (tries : ℕ) : delay (tries + 1) ≠ Backoff.first := by
  have hpos : 0 < 2 ^ tries := Nat.two_pow_pos tries
  simp only [delay, Backoff.first, Nat.pow_succ]
  omega

/-- The attempts that failed since the delays started again. -/
def tries (again : Mark → Bool) (log : List Mark) : ℕ := (Log.since again log).countP Mark.isRetrying

/-- Each delay is the one of its attempt. -/
def Follows (again : Mark → Bool) (log : List Mark) : Prop :=
  ∀ before retryIn after, log = before ++ .retrying retryIn :: after →
    retryIn = delay (tries again before)

/-- An attempt fails right after a probe of another version was replaced, and the task still
counts an earlier one. -/
def Forgets (log : List Mark) : Prop :=
  ∃ before d between d' after,
    log = before ++ .retrying d :: (between ++ .replaced :: .retrying d' :: after) ∧
      ∀ m ∈ between, ¬m.resets

section Logs

variable {again : Mark → Bool} {log : List Mark}

theorem tries_concat (m : Mark) : tries again (log ++ [m]) =
    if again m then 0 else if m.isRetrying then tries again log + 1 else tries again log := by
  by_cases hm : again m
  · simp [tries, Log.since_concat, hm]
  · by_cases hr : m.isRetrying
    · simp [tries, Log.since_concat, hm, hr]
    · simp [tries, Log.since_concat, hm, hr]

theorem follows_nil : Follows again [] := by
  intro before retryIn after h
  simp at h

theorem follows_concat_retrying (h : Follows again log) :
    Follows again (log ++ [.retrying (delay (tries again log))]) := by
  intro before retryIn after heq
  rcases Log.concat_eq_cut.mp heq with ⟨mid, hlog, -⟩ | ⟨rfl, hm, -⟩
  · exact h _ _ _ hlog
  · cases hm
    rfl

theorem follows_concat {m : Mark} (hm : ¬m.isRetrying) (h : Follows again log) :
    Follows again (log ++ [m]) := by
  intro before retryIn after heq
  rcases Log.concat_eq_cut.mp heq with ⟨mid, hlog, -⟩ | ⟨-, rfl, -⟩
  · exact h _ _ _ hlog
  · exact absurd rfl hm

/-- A task that forgets counts an attempt too many. -/
theorem Forgets.not_follows (hf : Forgets log) (h : Follows Mark.resets log) :
    ¬Follows Mark.restarts log := by
  obtain ⟨before, d, between, d', after, rfl, hbetween⟩ := hf
  intro hspec
  have hcut : before ++ Mark.retrying d :: (between ++ .replaced :: .retrying d' :: after) =
      (before ++ (.retrying d :: between ++ [.replaced])) ++ .retrying d' :: after := by simp
  have hactual := h _ _ _ hcut
  have hclaimed := hspec _ _ _ hcut
  have hzero : tries Mark.restarts (before ++ (.retrying d :: between ++ [.replaced])) = 0 := by
    rw [← List.append_assoc, tries_concat]
    rfl
  have hpos : 0 < tries Mark.resets (before ++ (.retrying d :: between ++ [.replaced])) := by
    have hkept : ∀ m ∈ Mark.retrying d :: between ++ [.replaced], ¬m.resets := by
      intro m hm
      rcases List.mem_append.mp hm with hm | hm
      · rcases List.mem_cons.mp hm with rfl | hm
        · simp [Mark.resets]
        · exact hbetween m hm
      · obtain rfl := List.mem_singleton.mp hm
        simp [Mark.resets]
    rw [tries, Log.since_append hkept, List.countP_pos_iff]
    exact ⟨.retrying d, by simp, rfl⟩
  obtain ⟨k, hk⟩ := Nat.exists_eq_succ_of_ne_zero (Nat.ne_of_gt hpos)
  rw [hactual, hzero, hk] at hclaimed
  exact delay_succ_ne k hclaimed

/-- A task that does not forget counts the attempts that failed since the delays were to start
again. -/
theorem tries_eq {before after : List Mark} {d : ℕ}
    (h : ¬Forgets (before ++ .retrying d :: after)) :
    tries Mark.resets before = tries Mark.restarts before := by
  rcases Log.since_cases before Mark.restarts_of_resets with heq | ⟨mid, m, hmid, hm⟩
  · rw [tries, heq, tries]
  · have hmem : ∀ x ∈ mid ++ m :: Log.since Mark.restarts before, ¬x.resets :=
      fun x hx => Log.not_of_mem_since (hmid ▸ hx)
    have hreplaced : m = .replaced := by
      have hno := hmem m (by simp)
      cases m <;> simp_all [Mark.resets, Mark.restarts, Mark.isRetrying]
    subst hreplaced
    rw [tries, tries, hmid, List.countP_append, List.countP_cons_of_neg (by simp [Mark.isRetrying])]
    suffices hnone : mid.countP Mark.isRetrying = 0 by omega
    rw [List.countP_eq_zero]
    intro x hx hretry
    apply h
    obtain ⟨pre, hpre⟩ := Log.exists_append_since Mark.resets before
    obtain ⟨mid₁, mid₂, rfl⟩ := List.append_of_mem hx
    cases x with
    | retrying d₁ =>
      -- what follows the replaced probe starts with an attempt that failed
      obtain ⟨d₂, rest, hrest⟩ : ∃ d₂ rest, Log.since Mark.restarts before ++ .retrying d :: after =
          .retrying d₂ :: rest := by
        cases hs : Log.since Mark.restarts before with
        | nil => exact ⟨d, after, rfl⟩
        | cons y ys =>
          have hy : ¬y.restarts := Log.not_of_mem_since (hs ▸ List.mem_cons_self)
          cases y with
          | retrying d₂ => exact ⟨d₂, _, rfl⟩
          | _ => exact absurd rfl hy
      refine ⟨pre ++ mid₁, d₁, mid₂, d₂, rest, ?_, fun m hm => hmem m ?_⟩
      · rw [hpre, hmid, ← hrest]
        simp
      · simp [hm]
    | _ => cases hretry

theorem follows_iff (h : Follows Mark.resets log) :
    Follows Mark.restarts log ↔ ¬Forgets log := by
  constructor
  · exact fun hspec hf => hf.not_follows h hspec
  · rintro hno before retryIn after rfl
    rw [h _ _ _ rfl, tries_eq hno]

end Logs

section Steps

/-- The marks of a step, and what it does to the delays. -/
inductive Turns (b : Backoff) : List Mark → Backoff → Prop
  | keeps : Turns b [] b
  | retries : Turns b [.retrying b.next] b.nextDelay.2
  | resets {m : Mark} : m.resets → Turns b [m] b.reset
  | forgets : Turns b [.replaced] b

variable (s : Host)

@[simp] theorem left_self (now : ℕ) (p : Phase) : left now p p = [] := by
  cases p with
  | waiting pause => cases pause <;> rfl
  | _ => rfl

@[simp] theorem told_append (out out' : List HostEffect) :
    told (out ++ out') = told out ++ told out' := List.filterMap_append

@[simp] theorem left_ended (now : ℕ) (p : Phase) : left now p .ended = [] := by
  cases p with
  | waiting pause => cases pause <;> rfl
  | _ => rfl

@[simp] theorem told_release (p : Phase) : told (release p) = [] := by
  cases p with
  | waiting pause => cases pause <;> rfl
  | _ => rfl

theorem turns_finish (out : List HostEffect) (h : told out = []) :
    Turns s.backoff (left s.now s.phase s.finish.1.phase ++ told (out ++ s.finish.2))
      s.finish.1.backoff := by
  simp only [finish, left_ended, told_append, told_release, h, List.nil_append]
  exact .keeps

/-- A wait that is over: the delays start again after a problem of the attempt only. -/
theorem turns_afterWait {pause : Pause} (hp : s.phase = .waiting pause) (out : List HostEffect)
    (h : told out = []) :
    Turns s.backoff
      (left s.now s.phase (s.afterWait pause).1.phase ++ told (out ++ (s.afterWait pause).2))
      (s.afterWait pause).1.backoff := by
  simp only [afterWait, attempt, told_append, told_release, h, hp, List.nil_append]
  cases pause with
  | denied => exact .resets (m := .resolved) rfl
  | mismatch => exact .forgets
  | backoff deadline => exact .keeps

theorem turns_takeCommand (c : Option HostCommand) :
    Turns s.backoff
      (left s.now s.phase (s.takeCommand c).1.phase ++ told (.took c :: (s.takeCommand c).2))
      (s.takeCommand c).1.backoff := by
  have hfinish := turns_finish s [.took c] rfl
  have hstay : ∀ out, told out = [] →
      Turns s.backoff (left s.now s.phase s.phase ++ told (.took c :: out)) s.backoff := by
    intro out hout
    rw [left_self, ← List.singleton_append, told_append, hout]
    exact .keeps
  have hbusy : Turns s.backoff
      (left s.now s.phase (s.busy c).1.phase ++ told (.took c :: (s.busy c).2))
      (s.busy c).1.backoff := by
    rcases c with _ | (_ | m | _)
    · exact hfinish
    · exact hstay [] rfl
    · exact hstay [s.emit (.dropped m)] rfl
    · exact hfinish
  unfold takeCommand
  split
  · exact hbusy
  · exact hbusy
  · rename_i pause hp
    rcases c with _ | (_ | m | _)
    · exact hfinish
    · exact turns_afterWait s hp [.took (some .retry)] rfl
    · exact hstay [s.emit (.dropped m)] rfl
    · exact hfinish
  · rename_i upSince hp
    rcases c with _ | (_ | m | _)
    · exact hfinish
    · exact hstay [] rfl
    · rw [hp]
      exact .keeps
    · exact hfinish
  all_goals exact hstay [] rfl

theorem turns_linkFailed (upSince : ℕ) (e : LinkError) :
    Turns s.backoff (if stableAfter ≤ s.now - upSince then [.stable] else [])
      (s.linkFailed upSince e).backoff := by
  simp only [linkFailed]
  split_ifs
  · exact .resets rfl
  · exact .keeps

theorem step_turns (i : Input) : Turns s.backoff (s.marks i) (s.step i).1.backoff := by
  have hstay : Turns s.backoff (left s.now s.phase s.phase ++ told []) s.backoff := by
    rw [left_self]
    exact .keeps
  cases i with
  | queue c =>
    simp only [marks, step]
    split_ifs <;> exact hstay
  | close => exact hstay
  | passes ms => exact hstay
  | command =>
    simp only [marks, step]
    rcases recv_cases s with h | ⟨-, ⟨c, cmds, -, h⟩ | ⟨-, -, h⟩⟩
    · rw [h]
      exact hstay
    · rw [h]
      exact turns_takeCommand { s with cmds := cmds } (some c)
    · rw [h]
      exact turns_takeCommand s none
  | opened r =>
    simp only [marks, step]
    split
    · rename_i hp
      rw [hp]
      rcases r with (reason | p) | o
      · exact .retries
      · exact .keeps
      · exact .keeps
    · exact hstay
  | greeted r =>
    simp only [marks, step]
    split
    · rename_i o hp
      rw [hp]
      cases r with
      | error e => cases e <;> exact .keeps
      | ok hello =>
        simp only [afterHello, told_append]
        split_ifs <;> exact .keeps
    · exact hstay
  | received r =>
    simp only [marks, step]
    split
    · rename_i upSince hp
      rw [hp]
      cases r with
      | error e =>
        simp only [serve, told]
        exact (List.append_nil _).symm ▸ turns_linkFailed s upSince e
      | ok msg =>
        simp only [serve]
        split
        · split <;> exact .keeps
        · exact .keeps
    · exact hstay
  | sent r =>
    simp only [marks, step, afterSend]
    split
    · rename_i hp
      rw [hp]
      exact .keeps
    · rename_i upSince offset e hp
      rw [hp]
      exact (List.append_nil _).symm ▸ turns_linkFailed s upSince e
    · rename_i hp
      rw [hp]
      exact .keeps
    · rename_i upSince m e hp
      rw [hp]
      exact (List.append_nil _).symm ▸ turns_linkFailed s upSince e
    · exact hstay
  | explained tail =>
    simp only [marks, step]
    split
    · rename_i reason hp
      rw [hp]
      exact .retries
    · exact hstay
  | elapsed =>
    simp only [marks, step]
    split
    · rename_i deadline hp
      split_ifs
      · exact turns_afterWait s hp [] rfl
      · exact hstay
    · exact hstay

end Steps

section Runs

variable (cfg : HostConfig)

/-- The task follows the schedule it starts again itself. -/
theorem schedule_follows (inputs : List Input) : Follows Mark.resets (schedule cfg inputs) := by
  have hstart : Follows Mark.resets [] ∧
      (new cfg).1.backoff.next = delay (tries Mark.resets []) := ⟨follows_nil, rfl⟩
  refine (history_invariant (P := fun log (s : Host) => Follows Mark.resets log ∧
    s.backoff.next = delay (tries Mark.resets log)) ?_ hstart inputs).1
  rintro log s i ⟨hlog, hnext⟩
  have hturn := step_turns s i
  generalize s.marks i = new at hturn ⊢
  generalize hb : (s.step i).1.backoff = b at hturn ⊢
  cases hturn with
  | keeps => simpa using ⟨hlog, hnext⟩
  | retries =>
    rw [hnext]
    refine ⟨follows_concat_retrying hlog, ?_⟩
    rw [tries_concat, Backoff.nextDelay, hnext]
    exact (delay_succ _).symm
  | @resets m hm =>
    have hm' : ¬m.isRetrying := by cases m <;> simp_all [Mark.resets, Mark.isRetrying]
    refine ⟨follows_concat hm' hlog, ?_⟩
    rw [tries_concat, if_pos hm]
    rfl
  | forgets =>
    refine ⟨follows_concat nofun hlog, ?_⟩
    rw [tries_concat]
    exact hnext

/-- Every delay is one second, doubled with each attempt that failed since the start of the task,
since the user left a problem through a retry or since a probe that had been up for long ended,
unless an attempt fails right after a probe of another protocol version was replaced and the task
still counts an earlier one. -/
theorem delays_scheduled (inputs : List Input) :
    Follows Mark.restarts (schedule cfg inputs) ↔ ¬Forgets (schedule cfg inputs) :=
  follows_iff (schedule_follows cfg inputs)

end Runs

/-- The host is not reached, then its probe is too old, and then it is not reached again. -/
def outdated : List Input :=
  [.opened (.error (.retry "no route")), .passes 1000, .elapsed, .opened (.ok ⟨.ok [], []⟩),
    .greeted (.error (.protocol 1 2)), .queue .retry, .command,
    .opened (.error (.retry "no route"))]

/-- The delay after the probe was replaced is two seconds. -/
theorem not_always_scheduled : ¬∀ (cfg : HostConfig) (inputs : List Input),
    Follows Mark.restarts (schedule cfg inputs) := by
  intro h
  have hdelay := h ⟨"h", .localHost, none⟩ outdated [.retrying 1000, .replaced] 2000 [] rfl
  exact absurd hdelay (by decide)

end MultiAi.Host
