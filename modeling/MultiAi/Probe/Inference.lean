import MultiAi.Library.Log
import MultiAi.Library.Runs
import MultiAi.Probe.Scrape

/-! # Inference from a history of screens

A tracker keeps a hash, a time and a state for a pane. They say of all screens of the pane what
the next inference needs: since when the screen has not changed, and which state was inferred
last.
-/

namespace MultiAi

/-- A screen that was dumped, and when. -/
structure Dump where
  screen : String
  atMs : ℕ
  deriving DecidableEq, Repr

namespace Inference

/-- What a dump says of the agent's state. -/
inductive Candidate where
  | nothing
  | state (s : AgentState)
  /-- The screen has settled and shows neither a question nor an end. -/
  | reset
  deriving DecidableEq, Repr

section History

variable (rule : CompiledRule) (dumps : ℕ → Dump)

def cleaned (i : ℕ) : String := rule.clean (dumps i).screen

def candidate (i : ℕ) : Candidate :=
  let j := Runs.start (cleaned rule dumps) i
  if i = 0 then .nothing
  else if j = i then .state .working
  else if (dumps i).atMs - (dumps j).atMs < rule.stableMs then .nothing
  else if anyMatch rule.needsInput (cleaned rule dumps i) then .state .needsInput
  else if anyMatch rule.done (cleaned rule dumps i) then .state .done
  else .reset

/-- What a candidate leaves to compare the next one with. -/
def Candidate.leaves : Candidate → Option (Option AgentState)
  | .nothing => none
  | .state s => some (some s)
  | .reset => some none

/-- The last candidate state before a dump, since the start and the last reset. -/
def lastState (n : ℕ) : Option AgentState :=
  Log.latest Candidate.leaves none ((List.range n).map (candidate rule dumps))

/-- The state of the candidate, if it is not the last one. -/
def change (last : Option AgentState) : Candidate → Option AgentState
  | .state s => if last = some s then none else some s
  | .nothing | .reset => none

def inferred (i : ℕ) : Option AgentState := change (lastState rule dumps i) (candidate rule dumps i)

end History

section Tracking

variable (lib : ScrapeLib) (rules : CompiledRules) (agent : String) (pane : PaneRef)
  (dumps : ℕ → Dump)

/-- The tracker after the first dumps. -/
def tracker : ℕ → ScrapeTracker
  | 0 => .new
  | n + 1 =>
    ((tracker n).observe lib rules agent pane (dumps n).screen (dumps n).atMs).1

/-- What the tracker returns at a dump. -/
def observed (i : ℕ) : Option AgentState :=
  ((tracker lib rules agent pane dumps i).observe lib rules agent pane (dumps i).screen
    (dumps i).atMs).2

end Tracking

variable {rule : CompiledRule} {dumps : ℕ → Dump} {n : ℕ}

theorem lastState_succ (rule : CompiledRule) (dumps : ℕ → Dump) (n : ℕ) :
    lastState rule dumps (n + 1) =
      (candidate rule dumps n).leaves.getD (lastState rule dumps n) := by
  rw [lastState, List.range_succ, List.map_append, List.map_singleton, Log.latest_concat, lastState]

/-- A pane that was dumped before, as the tracker sees its history. -/
def summary (lib : ScrapeLib) (rule : CompiledRule) (dumps : ℕ → Dump) (n : ℕ) : PaneScrape where
  hash := lib.hashScreen (cleaned rule dumps n)
  stableSinceMs := (dumps (Runs.start (cleaned rule dumps) n)).atMs
  emitted := lastState rule dumps (n + 1)

@[simp] theorem candidate_zero : candidate rule dumps 0 = .nothing := rfl

/-- A screen that changed. -/
theorem candidate_of_ne (h : cleaned rule dumps (n + 1) ≠ cleaned rule dumps n) :
    candidate rule dumps (n + 1) = .state .working := by
  simp only [candidate, Runs.start_succ_of_ne h, Nat.succ_ne_zero, if_true, if_false]

/-- A screen that did not. -/
theorem candidate_of_eq (h : cleaned rule dumps (n + 1) = cleaned rule dumps n) :
    candidate rule dumps (n + 1) =
      if (dumps (n + 1)).atMs - (dumps (Runs.start (cleaned rule dumps) n)).atMs < rule.stableMs
      then .nothing
      else match ScrapeTracker.settledState rule (cleaned rule dumps (n + 1)) with
        | some s => .state s
        | none => .reset := by
  have hstart : Runs.start (cleaned rule dumps) n ≠ n + 1 :=
    Nat.ne_of_lt (Nat.lt_succ_of_le (Runs.start_le _ n))
  simp only [candidate, Runs.start_succ_of_eq h, Nat.succ_ne_zero, hstart, if_false,
    ScrapeTracker.settledState]
  split_ifs <;> rfl

/-- One more dump: the summary of a history gives the summary of the next one and the state
that is inferred. -/
theorem observePane_summary {lib : ScrapeLib}
    (hhash : lib.hashScreen (cleaned rule dumps n) = lib.hashScreen (cleaned rule dumps (n + 1)) →
      cleaned rule dumps n = cleaned rule dumps (n + 1)) :
    ScrapeTracker.observePane rule (summary lib rule dumps n)
        (lib.hashScreen (cleaned rule dumps (n + 1))) (cleaned rule dumps (n + 1))
        (dumps (n + 1)).atMs =
      (summary lib rule dumps (n + 1), inferred rule dumps (n + 1)) := by
  by_cases heq : cleaned rule dumps (n + 1) = cleaned rule dumps n
  · have hc := candidate_of_eq heq
    have hlast := lastState_succ rule dumps (n + 1)
    simp only [ScrapeTracker.observePane, summary, inferred, hlast, hc, heq,
      Runs.start_succ_of_eq heq, ne_eq, not_true_eq_false, if_false]
    split_ifs with ht
    · rfl
    · cases ScrapeTracker.settledState rule (cleaned rule dumps n) with
      | none => rfl
      | some s =>
        by_cases hs : lastState rule dumps (n + 1) = some s
        · simp [Candidate.leaves, change, hs]
        · simp [Candidate.leaves, change, hs]
  · have hc := candidate_of_ne heq
    have hlast := lastState_succ rule dumps (n + 1)
    have hne : lib.hashScreen (cleaned rule dumps n) ≠
        lib.hashScreen (cleaned rule dumps (n + 1)) := fun h => heq (hhash h).symm
    simp only [ScrapeTracker.observePane, summary, inferred, hlast, hc, Runs.start_succ_of_ne heq,
      ne_eq, hne, not_false_eq_true, if_true]
    by_cases hs : lastState rule dumps (n + 1) = some .working
    · simp [Candidate.leaves, change, hs]
    · simp [Candidate.leaves, change, hs]

section Runs

variable {lib : ScrapeLib} {rules : CompiledRules} {agent : String} {pane : PaneRef}

/-- What a dump does to the history of its pane. -/
theorem observe_get (lib : ScrapeLib) (pane : PaneRef) (s : ScrapeTracker) (screen : String) (nowMs : ℕ)
    (hrule : rules.rule agent = some rule) :
    ((s.observe lib rules agent pane screen nowMs).1.get pane,
      (s.observe lib rules agent pane screen nowMs).2) =
    match s.get pane with
    | none => (some ⟨lib.hashScreen (rule.clean screen), nowMs, none⟩, none)
    | some p =>
      let (p, out) := ScrapeTracker.observePane rule p (lib.hashScreen (rule.clean screen))
        (rule.clean screen) nowMs
      (some p, out) := by
  rw [ScrapeTracker.observe, hrule]
  cases hp : s.get pane with
  | none => simp [ScrapeTracker.get]
  | some p => simp [ScrapeTracker.get]

/-- The tracker keeps the summary of the dumps so far. -/
theorem tracker_get (hrule : rules.rule agent = some rule) (n : ℕ)
    (hhash : ∀ i < n, lib.hashScreen (cleaned rule dumps i) =
        lib.hashScreen (cleaned rule dumps (i + 1)) →
      cleaned rule dumps i = cleaned rule dumps (i + 1)) :
    (tracker lib rules agent pane dumps (n + 1)).get pane = some (summary lib rule dumps n) := by
  induction n with
  | zero =>
    have hget := congrArg Prod.fst
      (observe_get lib pane .new (dumps 0).screen (dumps 0).atMs hrule)
    refine hget.trans ?_
    have hnew : ScrapeTracker.new.get pane = none := by simp [ScrapeTracker.get, ScrapeTracker.new]
    have hlast : lastState rule dumps 1 = none := lastState_succ rule dumps 0
    rw [hnew]
    simp [summary, cleaned, hlast]
  | succ n ih =>
    have hget := congrArg Prod.fst (observe_get lib pane
      (tracker lib rules agent pane dumps (n + 1)) (dumps (n + 1)).screen (dumps (n + 1)).atMs
      hrule)
    refine hget.trans ?_
    rw [ih fun i hi => hhash i (Nat.lt_succ_of_lt hi)]
    exact congrArg (fun x => some x.1) (observePane_summary (hhash n (Nat.lt_succ_self n)))

end Runs

/-- Of a sequence of dumps, as long as different screens have different hashes: the tracker
returns a state exactly when the history says that it is a new one. -/
theorem observed_eq_inferred (lib : ScrapeLib) (rules : CompiledRules) (agent : String)
    (pane : PaneRef) (dumps : ℕ → Dump) (n : ℕ)
    (hhash : ∀ rule, rules.rule agent = some rule → ∀ i ≤ n, ∀ j ≤ n,
      lib.hashScreen (cleaned rule dumps i) = lib.hashScreen (cleaned rule dumps j) →
        cleaned rule dumps i = cleaned rule dumps j) :
    ∀ i ≤ n, observed lib rules agent pane dumps i =
      (rules.rule agent).bind (inferred · dumps i) := by
  intro i hi
  cases hrule : rules.rule agent with
  | none => rw [observed, ScrapeTracker.observe, hrule, Option.bind_none]
  | some rule =>
    rw [Option.bind_some]
    have hget := congrArg Prod.snd (observe_get lib pane
      (tracker lib rules agent pane dumps i) (dumps i).screen (dumps i).atMs hrule)
    refine hget.trans ?_
    cases i with
    | zero => simp [tracker, ScrapeTracker.get, ScrapeTracker.new, inferred, change]
    | succ i =>
      have hsteps : ∀ k ≤ i, lib.hashScreen (cleaned rule dumps k) =
          lib.hashScreen (cleaned rule dumps (k + 1)) →
            cleaned rule dumps k = cleaned rule dumps (k + 1) := by
        intro k hk
        exact hhash rule hrule k (by omega) (k + 1) (by omega)
      rw [tracker_get hrule i fun k hk => hsteps k hk.le]
      exact congrArg Prod.snd (observePane_summary (hsteps i (Nat.le_refl i)))

/-- A rule of the tracker's tests, with patterns that are whole screens. -/
def sampleRules : CompiledRules where
  rules := [{
    name := "fake"
    stableMs := 5000
    title := []
    screen := []
    needsInput := [⟨(· = "Proceed?"), id⟩]
    done := [⟨(· = ">"), id⟩]
    ignore := [] }]

def sampleDumps : ℕ → Dump
  | 0 => ⟨"a", 0⟩
  | 1 => ⟨"Proceed?", 1000⟩
  | 2 => ⟨"Proceed?", 3000⟩
  | _ => ⟨"Proceed?", 6000⟩

theorem observed_eq_inferred_question :
    (sampleRules.rule "fake").bind (inferred · sampleDumps 3) = some .needsInput := by
  have hhash : ∀ rule, sampleRules.rule "fake" = some rule → ∀ i ≤ 3, ∀ j ≤ 3,
      (cleaned rule sampleDumps i).length = (cleaned rule sampleDumps j).length →
        cleaned rule sampleDumps i = cleaned rule sampleDumps j := by
    rintro rule ⟨⟩
    decide
  rw [← observed_eq_inferred ⟨fun _ => .error "no regex", String.length⟩ sampleRules "fake"
    ⟨"work", 1⟩ sampleDumps 3 hhash 3 (Nat.le_refl 3)]
  decide

end Inference

end MultiAi
