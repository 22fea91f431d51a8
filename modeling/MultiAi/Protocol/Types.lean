import MultiAi.Library.OrderedMap

/-! # Wire protocol

The values exchanged by the probe and the app. A `u32` or `u64` is a natural
number, and an `f32` is carried as its 32 bits.
-/

namespace MultiAi

/-- Lifecycle state of an agent running in a zellij pane. -/
inductive AgentState where
  | unknown
  | working
  | needsInput
  | done
  | exited
  deriving DecidableEq, Repr

/-- Where an agent event came from. -/
inductive EventSource where
  | hook
  | scrape
  deriving DecidableEq, Repr

/-- A pane inside a zellij session on one host. -/
structure PaneRef where
  session : String
  paneId : ℕ
  deriving DecidableEq, Repr

/-- A state observation for one agent pane. -/
structure AgentEvent where
  pane : PaneRef
  agent : String
  source : EventSource
  state : AgentState
  message : Option String
  tsMs : ℕ
  /-- Cursor of the spool record behind a hook event. -/
  spoolOffset : Option ℕ
  deriving DecidableEq, Repr

structure SessionInfo where
  name : String
  exited : Bool
  deriving DecidableEq, Repr

structure PaneInfo where
  id : ℕ
  tabId : ℕ
  tabName : String
  title : String
  command : Option String
  exited : Bool
  deriving DecidableEq, Repr

structure Metrics where
  cpuPct : BitVec 32
  memUsed : ℕ
  memTotal : ℕ
  diskReadBps : ℕ
  diskWriteBps : ℕ
  netRxBps : ℕ
  netTxBps : ℕ
  load1 : Option (BitVec 32)
  tsMs : ℕ
  deriving DecidableEq, Repr

/-- Regex rules for one agent kind. -/
structure AgentRule where
  name : String
  titlePatterns : List String
  screenPatterns : List String
  needsInputPatterns : List String
  donePatterns : List String
  ignorePatterns : List String
  stableMs : ℕ
  deriving DecidableEq, Repr

structure ScrapeRules where
  agents : List AgentRule
  deriving DecidableEq, Repr

/-- Probe to app. -/
inductive ProbeMsg where
  | hello (protocolVersion : ℕ) (probeVersion os arch : String)
      (zellijPath zellijVersion : Option String)
  | sessions (sessions : List SessionInfo)
  | panes (session : String) (panes : List PaneInfo)
  | agentEvent (ev : AgentEvent)
  | metrics (m : Metrics)
  | heartbeat (tsMs : ℕ)
  | error (code message : String)
  deriving DecidableEq, Repr

/-- App to probe. -/
inductive AppMsg where
  | ack (spoolOffset : ℕ)
  | sendText (session : String) (paneId : ℕ) (text : String)
  | focus (session : String) (paneId tabId : ℕ)
  | setInterval (panePollMs scrapeMs metricsMs : ℕ)
  | setRules (rules : ScrapeRules)
  deriving DecidableEq, Repr

namespace PaneRef

open Std OrderedMap

instance : Ord PaneRef := ⟨compareLex (compareOn session) (compareOn paneId)⟩

instance : TransOrd PaneRef :=
  inferInstanceAs (TransCmp (compareLex (compareOn session) (compareOn paneId)))

instance : LawfulEqOrd PaneRef where
  eq_of_compare {a b} h := by
    obtain ⟨hs, hp⟩ := compareLex_eq_iff.mp h
    cases a; cases b
    exact congrArg₂ _ (compareOn_eq_iff.mp hs) (compareOn_eq_iff.mp hp)

end PaneRef

end MultiAi
