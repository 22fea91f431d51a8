import MultiAi.Protocol.Types
import Std.Data.ExtTreeMap

/-! # Screen scraping

Identifies agent panes and infers agent states from screen dumps. The regex
library and the hash of a screen are parameters.
-/

namespace MultiAi

open Std

/-- A compiled pattern: whether it matches a text, and the text without its matches. -/
structure Regex where
  isMatch : String → Bool
  removeAll : String → String

/-- The parts of the libraries that scraping uses. -/
structure ScrapeLib where
  newRegex : String → Except String Regex
  hashScreen : String → ℕ

/-- A rule pattern that failed to compile, with the agent it belongs to. -/
structure RuleError where
  agent : String
  pattern : String
  source : String
  deriving DecidableEq, Repr

def RuleError.text (e : RuleError) : String :=
  s!"agent '{e.agent}': bad pattern '{e.pattern}': {e.source}"

structure CompiledRule where
  name : String
  stableMs : ℕ
  title : List Regex
  screen : List Regex
  needsInput : List Regex
  done : List Regex
  ignore : List Regex

def anyMatch (res : List Regex) (text : String) : Bool := res.any (·.isMatch text)

namespace CompiledRule

variable (lib : ScrapeLib)

def compileAll (agent : String) (patterns : List String) : Except RuleError (List Regex) :=
  patterns.mapM fun p => (lib.newRegex p).mapError fun source => ⟨agent, p, source⟩

def compile (r : AgentRule) : Except RuleError CompiledRule := do
  return { name := r.name, stableMs := r.stableMs,
           title := ← compileAll lib r.name r.titlePatterns
           screen := ← compileAll lib r.name r.screenPatterns
           needsInput := ← compileAll lib r.name r.needsInputPatterns
           done := ← compileAll lib r.name r.donePatterns
           ignore := ← compileAll lib r.name r.ignorePatterns }

/-- Screen text with every ignore-pattern match removed. -/
def clean (r : CompiledRule) (screen : String) : String :=
  r.ignore.foldl (fun out re => if re.isMatch out then re.removeAll out else out) screen

/-- The title or the command of a pane matches. -/
def matchesTitle (r : CompiledRule) (title : String) (command : Option String) : Bool :=
  anyMatch r.title title || command.any (anyMatch r.title)

end CompiledRule

structure CompiledRules where
  rules : List CompiledRule

namespace CompiledRules

def compile (lib : ScrapeLib) (src : ScrapeRules) : Except RuleError CompiledRules := do
  return ⟨← src.agents.mapM (CompiledRule.compile lib)⟩

variable (rules : CompiledRules)

/-- Name of the first agent whose title patterns match the pane title or command. -/
def identifyByTitle (title : String) (command : Option String) : Option String :=
  (rules.rules.find? (·.matchesTitle title command)).map (·.name)

/-- Title/command match first; otherwise the first agent whose screen patterns
match the screen. -/
def identify (title : String) (command : Option String) (screen : String) : Option String :=
  (rules.identifyByTitle title command).or
    ((rules.rules.find? fun r => anyMatch r.screen screen).map (·.name))

def rule (name : String) : Option CompiledRule := rules.rules.find? (·.name = name)

/-- True when any of `agent`'s own rules still matches the pane. -/
def stillMatches (agent title : String) (command : Option String) (screen : String) : Bool :=
  match rules.rule agent with
  | none => false
  | some r =>
    r.matchesTitle title command ||
      (let screen := r.clean screen
       anyMatch r.screen screen || anyMatch r.needsInput screen || anyMatch r.done screen)

end CompiledRules

structure PaneScrape where
  hash : ℕ
  stableSinceMs : ℕ
  emitted : Option AgentState
  deriving DecidableEq, Repr

/-- Per-pane screen history used to infer state changes. -/
structure ScrapeTracker where
  panes : ExtTreeMap PaneRef PaneScrape

namespace ScrapeTracker

def new : ScrapeTracker := ⟨∅⟩

def get (s : ScrapeTracker) (pane : PaneRef) : Option PaneScrape := s.panes[pane]?

/-- What a screen shows that has not changed for the stable time. -/
def settledState (rule : CompiledRule) (screen : String) : Option AgentState :=
  if anyMatch rule.needsInput screen then some .needsInput
  else if anyMatch rule.done screen then some .done
  else none

/-- The history of a pane after one more screen, and the state to report. -/
def observePane (rule : CompiledRule) (p : PaneScrape) (hash : ℕ) (screen : String) (nowMs : ℕ) :
    PaneScrape × Option AgentState :=
  let emit (p : PaneScrape) (next : AgentState) : PaneScrape × Option AgentState :=
    if p.emitted = some next then (p, none) else ({ p with emitted := some next }, some next)
  if p.hash ≠ hash then emit { p with hash := hash, stableSinceMs := nowMs } .working
  else if nowMs - p.stableSinceMs < rule.stableMs then (p, none)
  else match settledState rule screen with
    | some next => emit p next
    | none => ({ p with emitted := none }, none)

/-- Feed one screen dump; returns a state only when it changes. -/
def observe (lib : ScrapeLib) (s : ScrapeTracker) (rules : CompiledRules) (agent : String)
    (pane : PaneRef) (screen : String) (nowMs : ℕ) : ScrapeTracker × Option AgentState :=
  match rules.rule agent with
  | none => (s, none)
  | some rule =>
    let screen := rule.clean screen
    let hash := lib.hashScreen screen
    match s.get pane with
    | none => (⟨s.panes.insert pane ⟨hash, nowMs, none⟩⟩, none)
    | some p =>
      let (p, out) := observePane rule p hash screen nowMs
      (⟨s.panes.insert pane p⟩, out)

/-- Drop history for a pane that no longer exists. -/
def forget (s : ScrapeTracker) (pane : PaneRef) : ScrapeTracker := ⟨s.panes.erase pane⟩

/-- Drop all history (used when rules are replaced). -/
def reset (_s : ScrapeTracker) : ScrapeTracker := new

end ScrapeTracker

end MultiAi
