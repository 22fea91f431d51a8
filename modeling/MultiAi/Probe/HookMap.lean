import MultiAi.Library.Json
import MultiAi.Protocol.Types

/-! # Hook payloads

Maps the raw payload of a hook to the agent state it implies.
-/

namespace MultiAi

/-- A hook event as the spool holds it. -/
structure SpoolRecord where
  tsMs : ℕ
  agent : String
  session : String
  paneId : ℕ
  payload : Json

def SpoolRecord.pane (r : SpoolRecord) : PaneRef := ⟨r.session, r.paneId⟩

namespace HookMap

/-- Longest message forwarded to the app, in characters. -/
def maxMessageChars : ℕ := 120

structure Mapped where
  state : AgentState
  message : Option String
  deriving DecidableEq, Repr

def strField (v : Json) (key : String) : Option String := (v.get key).bind Json.asStr

/-- The code points with the Unicode property White_Space. -/
def isWhiteSpace (c : Char) : Bool :=
  (9 ≤ c.toNat && c.toNat ≤ 13) || (0x2000 ≤ c.toNat && c.toNat ≤ 0x200A) ||
    c.toNat ∈ [0x20, 0x85, 0xA0, 0x1680, 0x2028, 0x2029, 0x202F, 0x205F, 0x3000]

def trim (line : List Char) : List Char :=
  ((line.dropWhile isWhiteSpace).reverse.dropWhile isWhiteSpace).reverse

/-- First non-empty line, cut to `maxMessageChars` characters. -/
def short (text : Option String) : Option String := do
  let line ← (((← text).toList.splitOn '\n').map trim).find? (· ≠ [])
  some (String.ofList (line.take maxMessageChars))

def mapped (state : AgentState) (message : Option String) : Option Mapped := some ⟨state, message⟩

def mapClaude (p : Json) : Option Mapped := do
  match ← strField p "hook_event_name" with
  | "SessionStart" => mapped .unknown none
  | "UserPromptSubmit" | "PreToolUse" | "PostToolUse" => mapped .working none
  | "Notification" =>
    match ← strField p "notification_type" with
    | "permission_prompt" => mapped .needsInput (short (strField p "message"))
    | "idle_prompt" => mapped .done none
    | _ => none
  | "Stop" => mapped .done (short (strField p "last_assistant_message"))
  | "SessionEnd" => mapped .exited none
  | _ => none

def mapCodex (p : Json) : Option Mapped := do
  match ← strField p "hook_event_name" with
  | "SessionStart" => mapped .unknown none
  | "UserPromptSubmit" | "PreToolUse" | "PostToolUse" => mapped .working none
  | "PermissionRequest" =>
    let input := (p.get "tool_input").getD .null
    mapped .needsInput (short ((strField input "description").or (strField p "tool_name")))
  | "Stop" => mapped .done (short (strField p "last_assistant_message"))
  | "Interrupt" => mapped .done none
  | "SessionEnd" => mapped .exited none
  | _ => none

def stateOfName : String → Option AgentState
  | "unknown" => some .unknown
  | "working" => some .working
  | "needs_input" => some .needsInput
  | "done" => some .done
  | "exited" => some .exited
  | _ => none

/-- A state as it is deserialized: its name, or an object from its name to null. -/
def stateOfJson : Json → Option AgentState
  | .str name => stateOfName name
  | .obj [(name, .null)] => stateOfName name
  | _ => none

def mapGeneric (p : Json) : Option Mapped := do
  let state ← stateOfJson (← p.get "state")
  mapped state (short (strField p "message"))

/-- State implied by one hook payload; `none` for events that do not change state. -/
def mapHook (agent : String) (payload : Json) : Option Mapped :=
  match agent with
  | "claude" => mapClaude payload
  | "codex" => mapCodex payload
  | _ => mapGeneric payload

end HookMap

open HookMap

/-- The event a record stands for, if its hook changes the state of an agent. -/
def SpoolRecord.event (cursor : ℕ) (r : SpoolRecord) : Option AgentEvent :=
  (mapHook r.agent r.payload).map fun m =>
    { pane := r.pane, agent := r.agent, source := .hook, state := m.state, message := m.message,
      tsMs := r.tsMs, spoolOffset := some cursor }

theorem SpoolRecord.event_spoolOffset {cursor : ℕ} {r : SpoolRecord} {ev : AgentEvent}
    (h : r.event cursor = some ev) : ev.source = .hook ∧ ev.spoolOffset = some cursor := by
  obtain ⟨m, -, rfl⟩ := Option.map_eq_some_iff.mp h
  exact ⟨rfl, rfl⟩

end MultiAi
