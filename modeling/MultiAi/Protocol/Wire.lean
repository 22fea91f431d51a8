import MultiAi.Library.Json
import MultiAi.Protocol.Types
import Mathlib.Algebra.Group.Nat.Defs

/-! # The wire format

How the values of the protocol are written as JSON and read again: records by the names of
their fields, messages with a `type` beside them.
-/

namespace MultiAi

open Json

def u32 : ℕ := 2 ^ 32
def u64 : ℕ := 2 ^ 64

section Codes

variable (codec : JsonCodec)

namespace AgentState

def name : AgentState → String
  | .unknown => "unknown"
  | .working => "working"
  | .needsInput => "needs_input"
  | .done => "done"
  | .exited => "exited"

def decode : Json → Option AgentState
  | .str "unknown" => some .unknown
  | .str "working" => some .working
  | .str "needs_input" => some .needsInput
  | .str "done" => some .done
  | .str "exited" => some .exited
  | _ => none

end AgentState

namespace EventSource

def name : EventSource → String
  | .hook => "hook"
  | .scrape => "scrape"

def decode : Json → Option EventSource
  | .str "hook" => some .hook
  | .str "scrape" => some .scrape
  | _ => none

end EventSource

/-- A float; one that is not finite is written as `null`. -/
def f32 (x : BitVec 32) : Json := if FiniteF32 x then .num (codec.printF32 x) else .null

def asF32 : Json → Option (BitVec 32)
  | .num text => codec.readF32 text
  | _ => none

namespace PaneRef

def encode (p : PaneRef) : Json :=
  .obj [("session", .str p.session), ("pane_id", .ofNat p.paneId)]

def decode (v : Json) : Option PaneRef := do
  let fields ← v.asObj
  let session ← field fields "session" asStr none
  let paneId ← field fields "pane_id" (asNat u32) none
  return ⟨session, paneId⟩

end PaneRef

namespace AgentEvent

def fields (ev : AgentEvent) : List (String × Json) :=
  [("pane", ev.pane.encode), ("agent", .str ev.agent), ("source", .str ev.source.name),
    ("state", .str ev.state.name)] ++ present "message" .str ev.message ++
    [("ts_ms", .ofNat ev.tsMs)] ++ present "spool_offset" .ofNat ev.spoolOffset

def decode (fields : List (String × Json)) : Option AgentEvent := do
  let pane ← field fields "pane" PaneRef.decode none
  let agent ← field fields "agent" asStr none
  let source ← field fields "source" EventSource.decode none
  let state ← field fields "state" AgentState.decode none
  let message ← field fields "message" (asOption asStr) (some none)
  let tsMs ← field fields "ts_ms" (asNat u64) none
  let spoolOffset ← field fields "spool_offset" (asOption (asNat u64)) (some none)
  return ⟨pane, agent, source, state, message, tsMs, spoolOffset⟩

end AgentEvent

namespace SessionInfo

def encode (s : SessionInfo) : Json := .obj [("name", .str s.name), ("exited", .bool s.exited)]

def decode (v : Json) : Option SessionInfo := do
  let fields ← v.asObj
  let name ← field fields "name" asStr none
  let exited ← field fields "exited" asBool none
  return ⟨name, exited⟩

end SessionInfo

namespace PaneInfo

def encode (p : PaneInfo) : Json :=
  .obj ([("id", .ofNat p.id), ("tab_id", .ofNat p.tabId), ("tab_name", .str p.tabName),
    ("title", .str p.title)] ++ present "command" .str p.command ++ [("exited", .bool p.exited)])

def decode (v : Json) : Option PaneInfo := do
  let fields ← v.asObj
  let id ← field fields "id" (asNat u32) none
  let tabId ← field fields "tab_id" (asNat u32) none
  let tabName ← field fields "tab_name" asStr none
  let title ← field fields "title" asStr none
  let command ← field fields "command" (asOption asStr) (some none)
  let exited ← field fields "exited" asBool none
  return ⟨id, tabId, tabName, title, command, exited⟩

end PaneInfo

namespace Metrics

def fields (m : Metrics) : List (String × Json) :=
  [("cpu_pct", f32 codec m.cpuPct), ("mem_used", .ofNat m.memUsed),
    ("mem_total", .ofNat m.memTotal), ("disk_read_bps", .ofNat m.diskReadBps),
    ("disk_write_bps", .ofNat m.diskWriteBps), ("net_rx_bps", .ofNat m.netRxBps),
    ("net_tx_bps", .ofNat m.netTxBps)] ++ present "load1" (f32 codec) m.load1 ++
    [("ts_ms", .ofNat m.tsMs)]

def decode (fields : List (String × Json)) : Option Metrics := do
  let cpuPct ← field fields "cpu_pct" (asF32 codec) none
  let memUsed ← field fields "mem_used" (asNat u64) none
  let memTotal ← field fields "mem_total" (asNat u64) none
  let diskReadBps ← field fields "disk_read_bps" (asNat u64) none
  let diskWriteBps ← field fields "disk_write_bps" (asNat u64) none
  let netRxBps ← field fields "net_rx_bps" (asNat u64) none
  let netTxBps ← field fields "net_tx_bps" (asNat u64) none
  let load1 ← field fields "load1" (asOption (asF32 codec)) (some none)
  let tsMs ← field fields "ts_ms" (asNat u64) none
  return ⟨cpuPct, memUsed, memTotal, diskReadBps, diskWriteBps, netRxBps, netTxBps, load1, tsMs⟩

end Metrics

def encodeStrings (ss : List String) : Json := .arr (ss.map .str)

namespace AgentRule

def encode (r : AgentRule) : Json :=
  .obj [("name", .str r.name), ("title_patterns", encodeStrings r.titlePatterns),
    ("screen_patterns", encodeStrings r.screenPatterns),
    ("needs_input_patterns", encodeStrings r.needsInputPatterns),
    ("done_patterns", encodeStrings r.donePatterns),
    ("ignore_patterns", encodeStrings r.ignorePatterns), ("stable_ms", .ofNat r.stableMs)]

def decode (v : Json) : Option AgentRule := do
  let fields ← v.asObj
  let name ← field fields "name" asStr none
  let titlePatterns ← field fields "title_patterns" (asList asStr) (some [])
  let screenPatterns ← field fields "screen_patterns" (asList asStr) (some [])
  let needsInputPatterns ← field fields "needs_input_patterns" (asList asStr) (some [])
  let donePatterns ← field fields "done_patterns" (asList asStr) (some [])
  let ignorePatterns ← field fields "ignore_patterns" (asList asStr) (some [])
  let stableMs ← field fields "stable_ms" (asNat u64) none
  return ⟨name, titlePatterns, screenPatterns, needsInputPatterns, donePatterns, ignorePatterns,
    stableMs⟩

end AgentRule

namespace ScrapeRules

def encode (r : ScrapeRules) : Json := .obj [("agents", .arr (r.agents.map AgentRule.encode))]

def decode (v : Json) : Option ScrapeRules := do
  let fields ← v.asObj
  let agents ← field fields "agents" (asList AgentRule.decode) (some [])
  return ⟨agents⟩

end ScrapeRules

/-- The `type` of a message and its other fields. -/
def tagged (v : Json) : Option (String × List (String × Json)) := do
  let fields ← v.asObj
  let tag ← field fields "type" asStr none
  return (tag, fields.filter (·.1 ≠ "type"))

def withTag (tag : String) (fields : List (String × Json)) : Json :=
  .obj (("type", .str tag) :: fields)

namespace ProbeMsg

def encode : ProbeMsg → Json
  | .hello protocolVersion probeVersion os arch zellijPath zellijVersion =>
    withTag "hello" [("protocol_version", .ofNat protocolVersion),
      ("probe_version", .str probeVersion), ("os", .str os), ("arch", .str arch),
      ("zellij_path", ofOption .str zellijPath), ("zellij_version", ofOption .str zellijVersion)]
  | .sessions live => withTag "sessions" [("sessions", .arr (live.map (·.encode)))]
  | .panes session shown =>
    withTag "panes" [("session", .str session), ("panes", .arr (shown.map (·.encode)))]
  | .agentEvent ev => withTag "agent_event" ev.fields
  | .metrics m => withTag "metrics" (m.fields codec)
  | .heartbeat tsMs => withTag "heartbeat" [("ts_ms", .ofNat tsMs)]
  | .error code message => withTag "error" [("code", .str code), ("message", .str message)]

def decode (v : Json) : Option ProbeMsg := do
  match ← tagged v with
  | ("hello", fields) =>
    let protocolVersion ← field fields "protocol_version" (asNat u32) none
    let probeVersion ← field fields "probe_version" asStr none
    let os ← field fields "os" asStr none
    let arch ← field fields "arch" asStr none
    let zellijPath ← field fields "zellij_path" (asOption asStr) (some none)
    let zellijVersion ← field fields "zellij_version" (asOption asStr) (some none)
    return .hello protocolVersion probeVersion os arch zellijPath zellijVersion
  | ("sessions", fields) =>
    let live ← field fields "sessions" (asList SessionInfo.decode) none
    return .sessions live
  | ("panes", fields) =>
    let session ← field fields "session" asStr none
    let shown ← field fields "panes" (asList PaneInfo.decode) none
    return .panes session shown
  | ("agent_event", fields) => (AgentEvent.decode fields).map .agentEvent
  | ("metrics", fields) => (Metrics.decode codec fields).map .metrics
  | ("heartbeat", fields) =>
    let tsMs ← field fields "ts_ms" (asNat u64) none
    return .heartbeat tsMs
  | ("error", fields) =>
    let code ← field fields "code" asStr none
    let message ← field fields "message" asStr none
    return .error code message
  | _ => none

end ProbeMsg

namespace AppMsg

def encode : AppMsg → Json
  | .ack spoolOffset => withTag "ack" [("spool_offset", .ofNat spoolOffset)]
  | .sendText session paneId text =>
    withTag "send_text" [("session", .str session), ("pane_id", .ofNat paneId),
      ("text", .str text)]
  | .focus session paneId tabId =>
    withTag "focus" [("session", .str session), ("pane_id", .ofNat paneId),
      ("tab_id", .ofNat tabId)]
  | .setInterval panePollMs scrapeMs metricsMs =>
    withTag "set_interval" [("pane_poll_ms", .ofNat panePollMs), ("scrape_ms", .ofNat scrapeMs),
      ("metrics_ms", .ofNat metricsMs)]
  | .setRules rules => withTag "set_rules" [("rules", rules.encode)]

def decode (v : Json) : Option AppMsg := do
  match ← tagged v with
  | ("ack", fields) =>
    let spoolOffset ← field fields "spool_offset" (asNat u64) none
    return .ack spoolOffset
  | ("send_text", fields) =>
    let session ← field fields "session" asStr none
    let paneId ← field fields "pane_id" (asNat u32) none
    let text ← field fields "text" asStr none
    return .sendText session paneId text
  | ("focus", fields) =>
    let session ← field fields "session" asStr none
    let paneId ← field fields "pane_id" (asNat u32) none
    let tabId ← field fields "tab_id" (asNat u32) none
    return .focus session paneId tabId
  | ("set_interval", fields) =>
    let panePollMs ← field fields "pane_poll_ms" (asNat u64) none
    let scrapeMs ← field fields "scrape_ms" (asNat u64) none
    let metricsMs ← field fields "metrics_ms" (asNat u64) none
    return .setInterval panePollMs scrapeMs metricsMs
  | ("set_rules", fields) =>
    let rules ← field fields "rules" ScrapeRules.decode none
    return .setRules rules
  | _ => none

end AppMsg

section Fits

/-- The numbers are of the types of their fields, and the floats are finite. -/
def AgentEvent.Fits (ev : AgentEvent) : Prop :=
  ev.pane.paneId < u32 ∧ ev.tsMs < u64 ∧ ∀ offset ∈ ev.spoolOffset, offset < u64

def PaneInfo.Fits (p : PaneInfo) : Prop := p.id < u32 ∧ p.tabId < u32

def Metrics.Fits (m : Metrics) : Prop :=
  FiniteF32 m.cpuPct ∧ (∀ n ∈ [m.memUsed, m.memTotal, m.diskReadBps, m.diskWriteBps, m.netRxBps,
    m.netTxBps, m.tsMs], n < u64) ∧ ∀ x ∈ m.load1, FiniteF32 x

def ScrapeRules.Fits (r : ScrapeRules) : Prop := ∀ rule ∈ r.agents, rule.stableMs < u64

def ProbeMsg.Fits : ProbeMsg → Prop
  | .hello protocolVersion .. => protocolVersion < u32
  | .sessions _ | .error .. => True
  | .panes _ shown => ∀ p ∈ shown, p.Fits
  | .agentEvent ev => ev.Fits
  | .metrics m => m.Fits
  | .heartbeat tsMs => tsMs < u64

def AppMsg.Fits : AppMsg → Prop
  | .ack spoolOffset => spoolOffset < u64
  | .sendText _ paneId _ => paneId < u32
  | .focus _ paneId tabId => paneId < u32 ∧ tabId < u32
  | .setInterval panePollMs scrapeMs metricsMs =>
    panePollMs < u64 ∧ scrapeMs < u64 ∧ metricsMs < u64
  | .setRules rules => rules.Fits

end Fits

section RoundTrip

variable {codec}

theorem asOption_str (s : String) : asOption asStr (.str s) = some (some s) := rfl

theorem asOption_ofOption (m : Option String) : asOption asStr (ofOption .str m) = some m := by
  cases m <;> rfl

theorem AgentState.decode_name (s : AgentState) : AgentState.decode (.str s.name) = some s := by
  cases s <;> rfl

theorem EventSource.decode_name (s : EventSource) :
    EventSource.decode (.str s.name) = some s := by
  cases s <;> rfl

theorem asF32_f32 (hc : ∀ x, FiniteF32 x → codec.readF32 (codec.printF32 x) = some x)
    {x : BitVec 32} (h : FiniteF32 x) : asF32 codec (f32 codec x) = some x := by
  rw [f32, if_pos h]
  exact hc x h

theorem asOption_ofNat {bound n : ℕ} (h : n < bound) :
    asOption (asNat bound) (.ofNat n) = some (some n) := by
  rw [Json.ofNat, asOption, ← Json.ofNat, asNat_ofNat h, Option.map_some]
  rintro ⟨⟩

theorem asOption_f32 (hc : ∀ x, FiniteF32 x → codec.readF32 (codec.printF32 x) = some x)
    {x : BitVec 32} (h : FiniteF32 x) :
    asOption (asF32 codec) (f32 codec x) = some (some x) := by
  have hx := asF32_f32 hc h
  rw [f32, if_pos h] at hx ⊢
  rw [asOption, hx, Option.map_some]
  rintro ⟨⟩

theorem asStrings (ss : List String) : asList asStr (encodeStrings ss) = some ss :=
  asList_map fun _ _ => rfl

theorem tagged_withTag {tag : String} {fields : List (String × Json)}
    (h : fields.all (·.1 ≠ "type") = true) : tagged (withTag tag fields) = some (tag, fields) := by
  have hno : fields.any (·.1 = "type") = false := by
    simpa using h
  have hall : fields.filter (·.1 ≠ "type") = fields := List.filter_eq_self.mpr (List.all_eq_true.mp h)
  have htype : field (("type", .str tag) :: fields) "type" asStr none = some tag := by
    rw [field_cons, if_pos rfl, hno, if_neg Bool.false_ne_true, asStr_str]
  have hrest : (("type", Json.str tag) :: fields).filter (·.1 ≠ "type") = fields := by
    rw [List.filter_cons_of_neg (by simp), hall]
  rw [tagged, withTag, asObj_obj, Option.bind_eq_bind, Option.bind_some, htype,
    Option.bind_eq_bind, Option.bind_some, hrest]
  rfl

theorem PaneRef.decode_encode {p : PaneRef} (h : p.paneId < u32) :
    PaneRef.decode p.encode = some p := by
  simp [PaneRef.decode, PaneRef.encode, field_cons, asNat_ofNat h]

theorem SessionInfo.decode_encode (s : SessionInfo) : SessionInfo.decode s.encode = some s := by
  simp [SessionInfo.decode, SessionInfo.encode, field_cons]

theorem PaneInfo.decode_encode {p : PaneInfo} (h : p.Fits) : PaneInfo.decode p.encode = some p := by
  obtain ⟨hid, htab⟩ := h
  rcases p with ⟨id, tabId, tabName, title, _ | command, exited⟩ <;>
    simp [PaneInfo.decode, PaneInfo.encode, field_cons, asNat_ofNat hid, asNat_ofNat htab,
      asOption_str]

theorem AgentEvent.decode_fields {ev : AgentEvent} (h : ev.Fits) :
    AgentEvent.decode ev.fields = some ev := by
  obtain ⟨hpane, hts, hoffset⟩ := h
  rcases ev with ⟨pane, agent, source, state, _ | message, tsMs, _ | offset⟩ <;>
    simp_all [AgentEvent.decode, AgentEvent.fields, field_cons, PaneRef.decode_encode hpane,
      EventSource.decode_name, AgentState.decode_name, asNat_ofNat hts, asOption_ofNat,
      asOption_str]

theorem Metrics.decode_fields
    (hc : ∀ x, FiniteF32 x → codec.readF32 (codec.printF32 x) = some x) {m : Metrics}
    (h : m.Fits) : Metrics.decode codec (m.fields codec) = some m := by
  obtain ⟨hcpu, hnat, hload⟩ := h
  rcases m with ⟨cpuPct, memUsed, memTotal, diskReadBps, diskWriteBps, netRxBps, netTxBps,
    _ | load1, tsMs⟩ <;>
    simp_all [Metrics.decode, Metrics.fields, field_cons, asF32_f32 hc hcpu, asNat_ofNat,
      asOption_f32 hc]

theorem AgentRule.decode_encode {r : AgentRule} (h : r.stableMs < u64) :
    AgentRule.decode r.encode = some r := by
  simp [AgentRule.decode, AgentRule.encode, field_cons, asStrings, asNat_ofNat h]

theorem ScrapeRules.decode_encode {r : ScrapeRules} (h : r.Fits) :
    ScrapeRules.decode r.encode = some r := by
  simp [ScrapeRules.decode, ScrapeRules.encode, field_cons,
    asList_map fun rule hr => AgentRule.decode_encode (h rule hr)]

/-- The fields of an event beside the tag are its own. -/
theorem AgentEvent.no_type (ev : AgentEvent) : ev.fields.all (·.1 ≠ "type") = true := by
  rcases ev with ⟨pane, agent, source, state, _ | message, tsMs, _ | offset⟩ <;>
    simp [AgentEvent.fields]

theorem Metrics.no_type (m : Metrics) : (m.fields codec).all (·.1 ≠ "type") = true := by
  rcases m with ⟨cpuPct, memUsed, memTotal, diskReadBps, diskWriteBps, netRxBps, netTxBps,
    _ | load1, tsMs⟩ <;> simp [Metrics.fields]

theorem ProbeMsg.decode_encode
    (hc : ∀ x, FiniteF32 x → codec.readF32 (codec.printF32 x) = some x) {msg : ProbeMsg}
    (h : msg.Fits) : ProbeMsg.decode codec (msg.encode codec) = some msg := by
  cases msg with
  | hello protocolVersion probeVersion os arch zellijPath zellijVersion =>
    rw [encode, decode, tagged_withTag (by simp)]
    simp [field_cons, asNat_ofNat (show protocolVersion < u32 from h), asOption_ofOption]
  | sessions live =>
    rw [encode, decode, tagged_withTag (by simp)]
    simp [field_cons, asList_map fun s _ => SessionInfo.decode_encode s]
  | panes session shown =>
    rw [encode, decode, tagged_withTag (by simp)]
    simp [field_cons, asList_map fun p hp => PaneInfo.decode_encode (h p hp)]
  | agentEvent ev =>
    rw [encode, decode, tagged_withTag ev.no_type]
    simp [AgentEvent.decode_fields h]
  | metrics m =>
    rw [encode, decode, tagged_withTag m.no_type]
    simp [Metrics.decode_fields hc h]
  | heartbeat tsMs =>
    rw [encode, decode, tagged_withTag (by simp)]
    simp [field_cons, asNat_ofNat (show tsMs < u64 from h)]
  | error code message =>
    rw [encode, decode, tagged_withTag (by simp)]
    simp [field_cons]

theorem AppMsg.decode_encode {msg : AppMsg} (h : msg.Fits) :
    AppMsg.decode msg.encode = some msg := by
  cases msg with
  | ack spoolOffset =>
    rw [encode, decode, tagged_withTag (by simp)]
    simp [field_cons, asNat_ofNat (show spoolOffset < u64 from h)]
  | sendText session paneId text =>
    rw [encode, decode, tagged_withTag (by simp)]
    simp [field_cons, asNat_ofNat (show paneId < u32 from h)]
  | focus session paneId tabId =>
    obtain ⟨hp, ht⟩ := h
    rw [encode, decode, tagged_withTag (by simp)]
    simp [field_cons, asNat_ofNat hp, asNat_ofNat ht]
  | setInterval panePollMs scrapeMs metricsMs =>
    obtain ⟨hp, hs, hm⟩ := h
    rw [encode, decode, tagged_withTag (by simp)]
    simp [field_cons, asNat_ofNat hp, asNat_ofNat hs, asNat_ofNat hm]
  | setRules rules =>
    rw [encode, decode, tagged_withTag (by simp)]
    simp [field_cons, ScrapeRules.decode_encode h]

end RoundTrip

end Codes

end MultiAi
