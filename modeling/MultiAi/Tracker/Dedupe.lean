import MultiAi.Library.Machine
import MultiAi.Tracker.Basic

/-! # De-duplication of alerts

A record remembers only the last alert of its agent. Compared with the whole
alert history, this is exact unless an agent returns to one alerting state soon
after it alerted for the other.
-/

namespace MultiAi

/-- One call on a tracker. -/
inductive TrackerOp where
  | apply (hostId : String) (ev : AgentEvent)
  | paneGone (key : AgentKey) (nowMs : ℕ)
  | acknowledge (key : AgentKey)

/-- An alert with the time of the event that raised it. -/
structure Raised where
  alert : Alert
  tsMs : ℕ
  deriving DecidableEq

namespace Dedupe

def step (t : Tracker) : TrackerOp → Tracker × List Raised
  | .apply hostId ev =>
    ((t.apply hostId ev).1, (t.apply hostId ev).2.toList.map (⟨·, ev.tsMs⟩))
  | .paneGone key nowMs => (t.paneGone key nowMs, [])
  | .acknowledge key => ((t.acknowledge key).1, [])

variable (cfg : TrackerConfig)

/-- The tracker after a sequence of calls. -/
def tracker (ops : List TrackerOp) : Tracker := Machine.run step (.new cfg) ops

/-- Every alert returned so far, oldest first. -/
def history (ops : List TrackerOp) : List Raised := Machine.outputs step (.new cfg) ops

/-- The timestamps of the events among the calls. -/
def times (ops : List TrackerOp) : List ℕ :=
  ops.filterMap fun | .apply _ ev => some ev.tsMs | _ => none

/-- The event is accepted and moves its record into an alerting state. -/
def Enters (t : Tracker) (hostId : String) (ev : AgentEvent) : Prop :=
  ∃ r, (t.entry (.fromEvent hostId ev) ev).accept t.cfg ev = some r ∧ r.state ≠ ev.state ∧
    isAlerting ev.state

/-- An alert for this agent and state was returned within the window before `tsMs`. -/
def Recent (hist : List Raised) (key : AgentKey) (state : AgentState) (tsMs : ℕ) : Prop :=
  ∃ a ∈ hist, a.alert.key = key ∧ a.alert.state = state ∧ tsMs - a.tsMs < cfg.alertDedupeMs

/-- The last alert of the agent. -/
def lastFor (hist : List Raised) (key : AgentKey) : Option Raised :=
  (hist.filter (·.alert.key = key)).getLast?

/-- The last alert of the agent was for another state. -/
def LastDiffers (hist : List Raised) (key : AgentKey) (state : AgentState) : Prop :=
  ∃ a, lastFor hist key = some a ∧ a.alert.state ≠ state

/-- An accepted event that enters an alerting state alerts exactly when none was
returned for that agent and state within the window, so alerts of one agent and
state keep that distance. -/
def Law (ops : List TrackerOp) : Prop :=
  (∀ pre hostId ev post, ops = pre ++ .apply hostId ev :: post →
    Enters (tracker cfg pre) hostId ev →
    (((tracker cfg pre).apply hostId ev).2.isSome ↔
      ¬ Recent cfg (history cfg pre) (.fromEvent hostId ev) ev.state ev.tsMs)) ∧
  (history cfg ops).Pairwise fun a b =>
    a.alert.key = b.alert.key → a.alert.state = b.alert.state →
      a.tsMs + cfg.alertDedupeMs ≤ b.tsMs

/-- An accepted event enters `state` although the last alert was for the other
alerting state and the one for `state` is not old enough yet. -/
def Alternates (pre : List TrackerOp) (hostId : String) (ev : AgentEvent) : Prop :=
  LastDiffers (history cfg pre) (.fromEvent hostId ev) ev.state ∧
    Recent cfg (history cfg pre) (.fromEvent hostId ev) ev.state ev.tsMs

variable {cfg} {ops : List TrackerOp} {hostId : String} {ev : AgentEvent}

theorem tracker_concat (ops : List TrackerOp) (op : TrackerOp) :
    tracker cfg (ops ++ [op]) = (step (tracker cfg ops) op).1 := Machine.run_concat ..

theorem history_concat (ops : List TrackerOp) (op : TrackerOp) :
    history cfg (ops ++ [op]) = history cfg ops ++ (step (tracker cfg ops) op).2 :=
  Machine.outputs_concat ..

@[simp] theorem tracker_cfg (ops : List TrackerOp) : (tracker cfg ops).cfg = cfg := by
  refine Machine.run_invariant (P := fun t : Tracker => t.cfg = cfg)
    (Q := fun _ => True) ?_ rfl (by simp)
  rintro t (_ | _ | _) h - <;> exact h

theorem lastFor_concat (hist : List Raised) (a : Raised) (key : AgentKey) :
    lastFor (hist ++ [a]) key = if a.alert.key = key then some a else lastFor hist key := by
  rw [lastFor, List.filter_append]
  by_cases h : a.alert.key = key
  · simp only [List.filter_singleton, h, decide_true, cond_true, List.getLast?_concat, if_true]
  · simp only [List.filter_singleton, h, decide_false, cond_false, List.append_nil, if_false,
      lastFor]

theorem entry_lastAlert (t : Tracker) (key : AgentKey) (ev : AgentEvent) :
    (t.entry key ev).lastAlert = (t.get key).bind AgentRecord.lastAlert := by
  unfold Tracker.entry
  cases t.get key <;> rfl

/-- What a record remembers is the last alert of its agent. -/
theorem lastAlert_eq (ops : List TrackerOp) (key : AgentKey) :
    ((tracker cfg ops).get key).bind AgentRecord.lastAlert =
      (lastFor (history cfg ops) key).map fun a => (a.alert.state, a.tsMs) := by
  induction ops using List.reverseRecOn with
  | nil => simp [tracker, history, lastFor]
  | append_singleton ops op ih =>
    rw [tracker_concat, history_concat]
    cases op with
    | apply hostId ev =>
      simp only [step, Tracker.get_apply, Tracker.alert_apply, tracker_cfg]
      have hk := (tracker cfg ops).entry_key (.fromEvent hostId ev) ev
      rcases AgentRecord.apply_alert_cases ((tracker cfg ops).entry (.fromEvent hostId ev) ev)
        cfg ev with ⟨ha, hl⟩ | ⟨ha, hl⟩
      · rw [ha, Option.toList_none, List.map_nil, List.append_nil, ← ih]
        split_ifs with h
        · subst h
          rw [Option.bind_some, hl, entry_lastAlert]
        · rfl
      · rw [ha, Option.toList_some, List.map_singleton, lastFor_concat, hk]
        split_ifs with h
        · subst h
          rw [Option.bind_some, hl, Option.map_some]
        · exact ih
    | paneGone k nowMs =>
      simp only [step, Tracker.get_paneGone, List.append_nil, ← ih]
      split_ifs
      · cases (tracker cfg ops).get key <;> rfl
      · rfl
    | acknowledge k =>
      simp only [step, Tracker.get_acknowledge, List.append_nil, ← ih]
      split_ifs
      · cases (tracker cfg ops).get key <;> rfl
      · rfl

/-- Alerts carry the times of their events, in order. -/
theorem history_times (ops : List TrackerOp) :
    ((history cfg ops).map Raised.tsMs).Sublist (times ops) := by
  induction ops using List.reverseRecOn with
  | nil => simp [history]
  | append_singleton ops op ih =>
    rw [history_concat, List.map_append, times, List.filterMap_append]
    refine ih.append ?_
    cases op with
    | apply hostId ev => cases h : ((tracker cfg ops).apply hostId ev).2 <;> simp [step, h]
    | paneGone => simp [step]
    | acknowledge => simp [step]

theorem silenced_iff (ops : List TrackerOp) (hostId : String) (ev : AgentEvent) :
    ((tracker cfg ops).entry (.fromEvent hostId ev) ev).silenced cfg ev ↔
      ∃ a, lastFor (history cfg ops) (.fromEvent hostId ev) = some a ∧
        a.alert.state = ev.state ∧ ev.tsMs - a.tsMs < cfg.alertDedupeMs := by
  rw [AgentRecord.silenced, entry_lastAlert, lastAlert_eq]
  cases lastFor (history cfg ops) (.fromEvent hostId ev) <;> simp

theorem mem_of_lastFor {hist : List Raised} {key : AgentKey} {a : Raised}
    (h : lastFor hist key = some a) : a ∈ hist ∧ a.alert.key = key := by
  have ha := List.mem_filter.mp (List.mem_of_getLast? h)
  exact ⟨ha.1, by simpa using ha.2⟩

/-- In a history in time order, no alert of the agent is later than its last one. -/
theorem exists_lastFor {hist : List Raised} (hsorted : (hist.map Raised.tsMs).Pairwise (· ≤ ·))
    {b : Raised} (hb : b ∈ hist) :
    ∃ a, lastFor hist b.alert.key = some a ∧ b.tsMs ≤ a.tsMs := by
  have hbf : b ∈ hist.filter (·.alert.key = b.alert.key) :=
    List.mem_filter.mpr ⟨hb, by simp⟩
  cases h : lastFor hist b.alert.key with
  | none =>
    rw [lastFor, List.getLast?_eq_none_iff] at h
    exact absurd (h ▸ hbf) List.not_mem_nil
  | some a =>
    refine ⟨a, rfl, ?_⟩
    obtain ⟨l, hl⟩ := List.getLast?_eq_some_iff.mp h
    have hp := (List.pairwise_map.mp hsorted).filter (·.alert.key = b.alert.key)
    rw [hl] at hp hbf
    rcases List.mem_append.mp hbf with hm | hm
    · exact (List.pairwise_append.mp hp).2.2 b hm a (List.mem_singleton_self a)
    · exact Nat.le_of_eq (congrArg Raised.tsMs (List.mem_singleton.mp hm))

/-- In a history in time order, the last alert decides unless it is for another state. -/
theorem last_iff_recent {hist : List Raised} {key : AgentKey} {state : AgentState} {tsMs : ℕ}
    (hsorted : (hist.map Raised.tsMs).Pairwise (· ≤ ·))
    (hn : ¬ (LastDiffers hist key state ∧ Recent cfg hist key state tsMs)) :
    (∃ a, lastFor hist key = some a ∧ a.alert.state = state ∧
      tsMs - a.tsMs < cfg.alertDedupeMs) ↔ Recent cfg hist key state tsMs := by
  constructor
  · rintro ⟨a, hl, hs, ht⟩
    obtain ⟨ha, hk⟩ := mem_of_lastFor hl
    exact ⟨a, ha, hk, hs, ht⟩
  · intro hr
    obtain ⟨b, hb, rfl, hs, ht⟩ := id hr
    obtain ⟨a, hl, hle⟩ := exists_lastFor hsorted hb
    have hst : a.alert.state = state := by
      by_contra hd
      exact hn ⟨⟨a, hl, hd⟩, hr⟩
    exact ⟨a, hl, hst, by omega⟩

/-- At an entering event, the alert follows the history exactly when the agent
does not alternate. -/
theorem alert_iff_not_recent (hmono : (times ops).Pairwise (· ≤ ·))
    (he : Enters (tracker cfg ops) hostId ev) :
    (((tracker cfg ops).apply hostId ev).2.isSome ↔
        ¬ Recent cfg (history cfg ops) (.fromEvent hostId ev) ev.state ev.tsMs) ↔
      ¬ Alternates cfg ops hostId ev := by
  obtain ⟨r, hacc, hs, ha⟩ := he
  rw [Tracker.alert_apply, AgentRecord.apply_alert_isSome hacc hs ha, tracker_cfg,
    ← Bool.not_eq_true, silenced_iff]
  constructor
  · rintro h ⟨⟨a, hl, hd⟩, hr⟩
    refine h.mp ?_ hr
    rintro ⟨a', hl', hs', -⟩
    rw [hl, Option.some.injEq] at hl'
    exact hd (hl' ▸ hs')
  · intro h
    rw [last_iff_recent (hmono.sublist (history_times ops)) h]

theorem times_append (pre post : List TrackerOp) :
    times (pre ++ post) = times pre ++ times post := List.filterMap_append

/-- If no entering event alternates, alerts of one agent and state keep their distance. -/
theorem history_spaced (hmono : (times ops).Pairwise (· ≤ ·))
    (hlaw : ∀ pre hostId ev post, ops = pre ++ .apply hostId ev :: post →
      Enters (tracker cfg pre) hostId ev →
      (((tracker cfg pre).apply hostId ev).2.isSome ↔
        ¬ Recent cfg (history cfg pre) (.fromEvent hostId ev) ev.state ev.tsMs)) :
    (history cfg ops).Pairwise fun a b =>
      a.alert.key = b.alert.key → a.alert.state = b.alert.state →
        a.tsMs + cfg.alertDedupeMs ≤ b.tsMs := by
  induction ops using List.reverseRecOn with
  | nil => exact .nil
  | append_singleton ops op ih =>
    rw [times_append] at hmono
    obtain ⟨hops, -, hle⟩ := List.pairwise_append.mp hmono
    have ih := ih hops fun pre hostId ev post h => hlaw pre hostId ev (post ++ [op]) (by simp [h])
    rw [history_concat, List.pairwise_append]
    refine ⟨ih, ?_, ?_⟩
    · cases op with
      | apply hostId ev => cases h : ((tracker cfg ops).apply hostId ev).2 <;> simp [step, h]
      | paneGone => exact .nil
      | acknowledge => exact .nil
    · intro a ha b hb hk hs
      cases op with
      | paneGone => simp [step] at hb
      | acknowledge => simp [step] at hb
      | apply hostId ev =>
        simp only [step, List.mem_map, Option.mem_toList] at hb
        obtain ⟨al, hal, rfl⟩ := hb
        obtain ⟨henters, rfl⟩ := AgentRecord.enters_of_alert hal
        have hnot := (hlaw ops hostId ev [] rfl henters).mp
          (by rw [hal]; rfl)
        have hle : a.tsMs ≤ ev.tsMs := by
          refine hle _ ((history_times ops).subset (List.mem_map_of_mem ha)) _ ?_
          simp [times]
        have hfar : ¬ ev.tsMs - a.tsMs < cfg.alertDedupeMs := fun ht =>
          hnot ⟨a, ha, by rw [hk, Tracker.entry_key], hs, ht⟩
        show a.tsMs + cfg.alertDedupeMs ≤ ev.tsMs
        omega

/-- In time order, alerts follow the whole history of their agent and state exactly
when no agent alternates between the two alerting states within the window. -/
theorem law_iff (cfg : TrackerConfig) (ops : List TrackerOp)
    (hmono : (times ops).Pairwise (· ≤ ·)) :
    Law cfg ops ↔ ∀ pre hostId ev post, ops = pre ++ .apply hostId ev :: post →
      Enters (tracker cfg pre) hostId ev → ¬ Alternates cfg pre hostId ev := by
  have hpre : ∀ pre hostId ev post, ops = pre ++ .apply hostId ev :: post →
      (times pre).Pairwise (· ≤ ·) := by
    rintro pre hostId ev post rfl
    rw [times_append] at hmono
    exact (List.pairwise_append.mp hmono).1
  constructor
  · intro h pre hostId ev post he henters
    exact (alert_iff_not_recent (hpre _ _ _ _ he) henters).mp (h.1 pre hostId ev post he henters)
  · intro h
    have hlaw : ∀ pre hostId ev post, ops = pre ++ .apply hostId ev :: post →
        Enters (tracker cfg pre) hostId ev →
        (((tracker cfg pre).apply hostId ev).2.isSome ↔
          ¬ Recent cfg (history cfg pre) (.fromEvent hostId ev) ev.state ev.tsMs) :=
      fun pre hostId ev post he henters =>
        (alert_iff_not_recent (hpre _ _ _ _ he) henters).mpr (h pre hostId ev post he henters)
    exact ⟨hlaw, history_spaced hmono hlaw⟩

/-- A hook event of one agent, as the tracker's tests write it. -/
def hookEvent (state : AgentState) (tsMs : ℕ) : AgentEvent where
  pane := ⟨"work", 1⟩
  agent := "claude"
  source := .hook
  state := state
  message := none
  tsMs := tsMs
  spoolOffset := none

theorem law_iff_done_twice :
    Law .default [.apply "host" (hookEvent .done 0), .apply "host" (hookEvent .working 1000),
      .apply "host" (hookEvent .done 2000)] ↔
    ∀ pre hostId ev post, [.apply "host" (hookEvent .done 0),
        .apply "host" (hookEvent .working 1000), .apply "host" (hookEvent .done 2000)] =
        pre ++ .apply hostId ev :: post →
      Enters (tracker .default pre) hostId ev → ¬ Alternates .default pre hostId ev :=
  law_iff _ _ (by decide)

/-- An agent that asks, finishes and asks again alerts twice for the same state. -/
theorem not_law_alternating :
    ¬ Law .default [.apply "host" (hookEvent .needsInput 0), .apply "host" (hookEvent .done 1000),
      .apply "host" (hookEvent .needsInput 2000)] := by
  intro h
  have ha := h.1 [.apply "host" (hookEvent .needsInput 0), .apply "host" (hookEvent .done 1000)]
    "host" (hookEvent .needsInput 2000) [] rfl ⟨_, rfl, by decide, by decide⟩
  refine ha.mp (by decide) ?_
  exact ⟨⟨⟨⟨"host", "work", 1⟩, "claude", .needsInput, none⟩, 0⟩, by decide, by decide, by decide,
    by decide⟩

end Dedupe

end MultiAi
