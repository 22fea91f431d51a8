import MultiAi.Library.Machine
import MultiAi.Probe.Scrape
import MultiAi.Probe.Spool
import Mathlib.Data.Finset.Basic

/-! # Probe server

Turns spool records, zellij state and screen dumps into messages, and applies the
messages of the app. What the spool and zellij answer is an input of each tick.
-/

namespace MultiAi

open Std Spool

/-- Shortest interval the app may set. -/
def minIntervalMs : ℕ := 250

/-- How often a long-running serve deletes old spool files. -/
def cleanupEveryMs : ℕ := 3600000

/-- A scrape-identified agent is reported exited only after this many consecutive
scrapes in which none of its rules match the pane. -/
def missesToExit : ℕ := 2

structure Intervals where
  panePollMs : ℕ
  scrapeMs : ℕ
  metricsMs : ℕ
  deriving DecidableEq, Repr

def Intervals.default : Intervals := ⟨2000, 3000, 2000⟩

/-- True when `everyMs` has passed since `last` (or it never ran). -/
def due (last : Option ℕ) (everyMs nowMs : ℕ) : Bool := last.all fun t => everyMs ≤ nowMs - t

/-- Agent bound to a pane, and whether a hook (rather than scraping) established
the binding. -/
structure Binding where
  agent : String
  fromHook : Bool
  /-- Consecutive scrapes in which none of the agent's rules matched. -/
  misses : ℕ
  deriving DecidableEq, Repr

/-- What a periodic operation was doing when it failed. -/
inductive Scope where
  | sessions
  | panes (session : String)
  | dump (pane : PaneRef)
  | cleanup
  deriving DecidableEq, Repr

/-- Note that `scope` fails; the message unless it is failing already. -/
def report (failing : Finset Scope) (scope : Scope) (msg : ProbeMsg) :
    Finset Scope × List ProbeMsg :=
  (insert scope failing, if scope ∈ failing then [] else [msg])

/-- The panes of each session. -/
abbrev PaneLists := ExtTreeMap String (List PaneInfo)

def paneExists (lists : PaneLists) (p : PaneRef) : Bool :=
  lists[p.session]?.any fun ps => ps.any (·.id = p.paneId)

structure Server where
  /-- Whether the zellij binary was found. -/
  zellij : Bool
  rules : CompiledRules
  scrape : ScrapeTracker
  intervals : Intervals
  readCursor : ℕ
  lastPanePoll : Option ℕ
  lastScrape : Option ℕ
  lastCleanup : Option ℕ
  /-- `none` until the first successful poll. -/
  sessions : Option (List SessionInfo)
  panes : PaneLists
  /-- Panes known to run an agent (from hooks or identification). -/
  agents : ExtTreeMap PaneRef Binding
  /-- Panes whose agent a hook reported as exited, until a scrape identifies none. -/
  exitHold : Finset PaneRef
  failing : Finset Scope
  spoolFailing : Bool

/-- What the spool and zellij answer during one tick. -/
structure TickAnswers where
  cleanup : Except String ℕ
  read : Except String ReadResult
  sessions : Except String (List SessionInfo)
  panes : String → Except String (List PaneInfo)
  dump : PaneRef → Except String String

namespace Server

/-- Reading resumes after the last ack. -/
def new (zellij : Bool) (ack : ℕ) (rules : CompiledRules) : Server where
  zellij := zellij
  rules := rules
  scrape := .new
  intervals := .default
  readCursor := ack
  lastPanePoll := none
  lastScrape := none
  lastCleanup := none
  sessions := none
  panes := ∅
  agents := ∅
  exitHold := ∅
  failing := ∅
  spoolFailing := false

def binding (s : Server) (pane : PaneRef) : Option Binding := s.agents[pane]?

def paneList (s : Server) (session : String) : Option (List PaneInfo) := s.panes[session]?

def runCleanup (s : Server) (nowMs : ℕ) (a : TickAnswers) : Server × List ProbeMsg :=
  if due s.lastCleanup cleanupEveryMs nowMs then
    let s := { s with lastCleanup := some nowMs }
    match a.cleanup with
    | .ok _ => ({ s with failing := s.failing.erase .cleanup }, [])
    | .error e =>
      let (failing, out) := report s.failing .cleanup (.error "spool_cleanup" e)
      ({ s with failing := failing }, out)
  else (s, [])

/-- Bind the pane of a record to its agent, or release it if the agent exited. -/
def bindRecord (s : Server) (pane : PaneRef) (agent : String) (exited : Bool) : Server :=
  if exited then
    { s with
      agents := s.agents.erase pane
      scrape := s.scrape.forget pane
      exitHold := insert pane s.exitHold }
  else
    { s with
      agents := s.agents.insert pane ⟨agent, true, 0⟩
      exitHold := s.exitHold.erase pane }

def drainRecord (s : Server) (entry : ℕ × SpoolRecord) : Server × List ProbeMsg :=
  let (cursor, r) := entry
  let ev := r.event cursor
  let s :=
    if s.zellij then s.bindRecord r.pane r.agent (ev.any (·.state = .exited)) else s
  (s, (ev.map ProbeMsg.agentEvent).toList)

def drainSpool (s : Server) (a : TickAnswers) : Server × List ProbeMsg :=
  match a.read with
  | .error e =>
    ({ s with spoolFailing := true }, if s.spoolFailing then [] else [.error "spool_read" e])
  | .ok read =>
    let s := { s with spoolFailing := false, readCursor := read.endCursor }
    let bad :=
      if 0 < read.badLines then
        [.error "spool_bad_line" s!"skipped {read.badLines} unparsable spool line(s)"]
      else []
    (Machine.run drainRecord s read.records,
      bad ++ Machine.outputs drainRecord s read.records)

/-- What a poll has gathered: the failing scopes and the lists of the sessions so far. -/
structure Polling where
  failing : Finset Scope
  fresh : PaneLists

def pollSession (old : PaneLists) (panes : String → Except String (List PaneInfo))
    (acc : Polling) (session : SessionInfo) : Polling × List ProbeMsg :=
  let name := session.name
  match panes name with
  | .ok ps =>
    (⟨acc.failing.erase (.panes name), acc.fresh.insert name ps⟩,
      if old[name]? = some ps then [] else [.panes name ps])
  | .error e =>
    let (failing, out) := report acc.failing (.panes name) (.error "zellij" e)
    let fresh := match old[name]? with
      | some ps => acc.fresh.insert name ps
      | none => acc.fresh
    (⟨failing, fresh⟩, out)

def liveSessions (sessions : List SessionInfo) : List SessionInfo := sessions.filter (!·.exited)

/-- Every pane of the lists. -/
def allPanes (lists : PaneLists) : List (PaneRef × PaneInfo) :=
  lists.toList.flatMap fun (session, ps) => ps.map fun p => (⟨session, p.id⟩, p)

/-- Whether a scope still exists after a poll. -/
def scopeStays (live : List SessionInfo) (fresh : PaneLists) : Scope → Bool
  | .panes name => live.any (·.name = name)
  | .dump pane => paneExists fresh pane
  | .sessions | .cleanup => true

def pollPanes (s : Server) (a : TickAnswers) : Server × List ProbeMsg :=
  match a.sessions with
  | .error e =>
    let (failing, out) := report s.failing .sessions (.error "zellij" e)
    ({ s with failing := failing }, out)
  | .ok sessions =>
    let news := if s.sessions = some sessions then [] else [.sessions sessions]
    let live := liveSessions sessions
    let start : Polling := ⟨s.failing.erase .sessions, ∅⟩
    let polled := Machine.run (pollSession s.panes a.panes) start live
    let out := Machine.outputs (pollSession s.panes a.panes) start live
    let gone := (allPanes s.panes).filter fun (pane, _) => !paneExists polled.fresh pane
    ({ s with
        sessions := some sessions
        panes := polled.fresh
        scrape := gone.foldl (fun scrape (pane, _) => scrape.forget pane) s.scrape
        agents := s.agents.filter fun pane _ => paneExists polled.fresh pane
        exitHold := s.exitHold.filter fun pane => paneExists polled.fresh pane
        failing := polled.failing.filter fun scope => scopeStays live polled.fresh scope },
      news ++ out)

def scrapeEvent (pane : PaneRef) (agent : String) (state : AgentState) (nowMs : ℕ) : ProbeMsg :=
  .agentEvent { pane := pane, agent := agent, source := .scrape, state := state, message := none,
                tsMs := nowMs, spoolOffset := none }

/-- The agent of a pane as a scrape finds it: the server with its binding, the agent
to observe if any, and the events of binding or releasing it. -/
def bindScrape (s : Server) (pane : PaneRef) (p : PaneInfo) (screen : String) (nowMs : ℕ) :
    Server × Option String × List ProbeMsg :=
  let found := s.rules.identify p.title p.command screen
  match s.binding pane with
  | some b =>
    if b.fromHook then (s, some b.agent, [])
    else if found = some b.agent || s.rules.stillMatches b.agent p.title p.command screen then
      ({ s with agents := s.agents.insert pane { b with misses := 0 } }, some b.agent, [])
    else
      let b := { b with misses := b.misses + 1 }
      if b.misses < missesToExit then
        ({ s with agents := s.agents.insert pane b }, none, [])
      else
        -- The agent is gone, e.g. back at the shell: reported once.
        ({ s with agents := s.agents.erase pane, scrape := s.scrape.forget pane }, none,
          [scrapeEvent pane b.agent .exited nowMs])
  | none =>
    match found with
    | none => ({ s with exitHold := s.exitHold.erase pane }, none, [])
    | some agent =>
      if pane ∈ s.exitHold then (s, none, [])
      else
        ({ s with agents := s.agents.insert pane ⟨agent, false, 0⟩ }, some agent,
          [scrapeEvent pane agent .unknown nowMs])

def scrapePane (lib : ScrapeLib) (dump : PaneRef → Except String String) (nowMs : ℕ) (s : Server)
    (target : PaneRef × PaneInfo) : Server × List ProbeMsg :=
  let (pane, p) := target
  match dump pane with
  | .error e =>
    let (failing, out) := report s.failing (.dump pane) (.error "zellij" e)
    ({ s with failing := failing }, out)
  | .ok screen =>
    let s := { s with failing := s.failing.erase (.dump pane) }
    match s.bindScrape pane p screen nowMs with
    | (s, none, out) => (s, out)
    | (s, some agent, out) =>
      let (scrape, state) := s.scrape.observe lib s.rules agent pane screen nowMs
      ({ s with scrape := scrape }, out ++ (state.map (scrapeEvent pane agent · nowMs)).toList)

/-- The panes a scrape visits. -/
def targets (s : Server) : List (PaneRef × PaneInfo) := (allPanes s.panes).filter (!·.2.exited)

def scrapePanes (lib : ScrapeLib) (s : Server) (nowMs : ℕ) (a : TickAnswers) :
    Server × List ProbeMsg :=
  (Machine.run (scrapePane lib a.dump nowMs) s s.targets,
    Machine.outputs (scrapePane lib a.dump nowMs) s s.targets)

def pollIfDue (s : Server) (nowMs : ℕ) (a : TickAnswers) : Server × List ProbeMsg :=
  if s.zellij && due s.lastPanePoll s.intervals.panePollMs nowMs then
    { s with lastPanePoll := some nowMs }.pollPanes a
  else (s, [])

def scrapeIfDue (lib : ScrapeLib) (s : Server) (nowMs : ℕ) (a : TickAnswers) :
    Server × List ProbeMsg :=
  if s.zellij && due s.lastScrape s.intervals.scrapeMs nowMs then
    { s with lastScrape := some nowMs }.scrapePanes lib nowMs a
  else (s, [])

/-- One scheduling step: old spool files are deleted when due, then new spool
records are read, then panes are polled and screens scraped when due. -/
def tick (lib : ScrapeLib) (s : Server) (nowMs : ℕ) (a : TickAnswers) : Server × List ProbeMsg :=
  let (s, cleaned) := s.runCleanup nowMs a
  let (s, drained) := s.drainSpool a
  let (s, polled) := s.pollIfDue nowMs a
  let (s, scraped) := s.scrapeIfDue lib nowMs a
  (s, cleaned ++ drained ++ polled ++ scraped)

/-- What the spool or zellij answers to a message of the app. -/
structure HandleAnswers where
  storeAck : Except String Unit
  zellij : Except String Unit

/-- The messages an operation answers with. -/
def errOf (code : String) : Except String Unit → List ProbeMsg
  | .ok () => []
  | .error e => [.error code e]

def withZellij (s : Server) (r : Except String Unit) : List ProbeMsg :=
  if s.zellij then errOf "zellij" r
  else [.error "zellij_missing" "zellij not found on this host"]

/-- Apply a message of the app: the server, the ack it stored if any, and its answer. -/
def handle (lib : ScrapeLib) (s : Server) (a : HandleAnswers) :
    AppMsg → Server × Option ℕ × List ProbeMsg
  | .ack offset => (s, if a.storeAck.isOk then some offset else none, errOf "spool_ack" a.storeAck)
  | .sendText .. => (s, none, s.withZellij a.zellij)
  | .focus .. => (s, none, s.withZellij a.zellij)
  | .setInterval panePollMs scrapeMs metricsMs =>
    ({ s with
        intervals := ⟨max panePollMs minIntervalMs, max scrapeMs minIntervalMs,
          max metricsMs minIntervalMs⟩ }, none, [])
  | .setRules rules =>
    match CompiledRules.compile lib rules with
    | .ok compiled => ({ s with rules := compiled, scrape := s.scrape.reset }, none, [])
    | .error e => (s, none, [.error "bad_rules" e.text])

/-- What drives a server: a tick with what the spool and zellij answer, or a message of
the app. -/
inductive Input where
  | tick (nowMs : ℕ) (a : TickAnswers)
  | app (a : HandleAnswers) (msg : AppMsg)

def step (lib : ScrapeLib) (s : Server) : Input → Server × List ProbeMsg
  | .tick nowMs a => s.tick lib nowMs a
  | .app a msg => ((s.handle lib a msg).1, (s.handle lib a msg).2.2)

end Server

/-- The hook event a message carries. -/
def ProbeMsg.hook : ProbeMsg → Option AgentEvent
  | .agentEvent ev => if ev.source = .hook then some ev else none
  | _ => none

/-- The offset to acknowledge when a message has been handed on. -/
def ProbeMsg.ack : ProbeMsg → Option ℕ
  | .agentEvent ev => ev.spoolOffset
  | _ => none

/-- A message that carries no hook event and is not acknowledged. -/
def ProbeMsg.Silent (msg : ProbeMsg) : Prop := msg.hook = none ∧ msg.ack = none

/-- A message is acknowledged for the hook event it carries. -/
def ProbeMsg.AckedByHook (msg : ProbeMsg) : Prop := msg.ack = msg.hook.bind (·.spoolOffset)

theorem ProbeMsg.Silent.ackedByHook {msg : ProbeMsg} (h : msg.Silent) : msg.AckedByHook := by
  rw [ProbeMsg.AckedByHook, h.1, h.2]
  rfl

def hooks (out : List ProbeMsg) : List AgentEvent := out.filterMap ProbeMsg.hook

theorem hooks_append (out out' : List ProbeMsg) : hooks (out ++ out') = hooks out ++ hooks out' :=
  List.filterMap_append

theorem hooks_eq_nil {out : List ProbeMsg} (h : ∀ msg ∈ out, msg.Silent) : hooks out = [] :=
  List.filterMap_eq_nil_iff.mpr fun msg hm => (h msg hm).1

/-- The events of the records that change the state of an agent. -/
def recordEvents (records : List (ℕ × SpoolRecord)) : List AgentEvent :=
  records.filterMap fun (cursor, r) => r.event cursor

namespace Server

variable (lib : ScrapeLib) (s : Server) (nowMs : ℕ) (a : TickAnswers)

theorem report_silent (failing : Finset Scope) (scope : Scope) (code message : String) :
    ∀ msg ∈ (report failing scope (.error code message)).2, msg.Silent := by
  intro msg h
  simp only [report] at h
  split_ifs at h
  · cases h
  · rw [List.mem_singleton.mp h]
    exact ⟨rfl, rfl⟩

theorem runCleanup_silent : ∀ msg ∈ (s.runCleanup nowMs a).2, msg.Silent := by
  unfold runCleanup
  split_ifs
  · split
    · exact fun _ h => (List.not_mem_nil h).elim
    · exact report_silent _ _ _ _
  · exact fun _ h => (List.not_mem_nil h).elim

theorem hooks_outputs_drainRecord (records : List (ℕ × SpoolRecord)) :
    hooks (Machine.outputs drainRecord s records) = recordEvents records := by
  induction records generalizing s with
  | nil => rfl
  | cons entry records ih =>
    obtain ⟨cursor, r⟩ := entry
    rw [Machine.outputs_cons, hooks_append, ih]
    cases he : r.event cursor with
    | none => simp [drainRecord, recordEvents, hooks, he]
    | some ev =>
      have hsource := (r.event_spoolOffset he).1
      simp [drainRecord, recordEvents, hooks, he, ProbeMsg.hook, hsource]

/-- A tick announces the hook events of the records it read. -/
theorem hooks_drainSpool : hooks (s.drainSpool a).2 =
    match a.read with
    | .ok read => recordEvents read.records
    | .error _ => [] := by
  cases h : a.read with
  | error e =>
    simp only [drainSpool, h]
    split_ifs <;> rfl
  | ok read =>
    simp only [drainSpool, h, hooks_append, hooks_outputs_drainRecord]
    split_ifs <;> rfl

theorem pollSession_silent (old : PaneLists) (panes : String → Except String (List PaneInfo))
    (acc : Polling) (session : SessionInfo) :
    ∀ msg ∈ (pollSession old panes acc session).2, msg.Silent := by
  simp only [pollSession]
  split
  · split_ifs
    · exact fun _ h => (List.not_mem_nil h).elim
    · exact fun _ h => List.mem_singleton.mp h ▸ ⟨rfl, rfl⟩
  · exact report_silent _ _ _ _

theorem pollIfDue_silent : ∀ msg ∈ (s.pollIfDue nowMs a).2, msg.Silent := by
  unfold pollIfDue pollPanes
  split_ifs
  · split
    · exact report_silent _ _ _ _
    · intro msg h
      rcases List.mem_append.mp h with h | h
      · split_ifs at h
        · cases h
        · rw [List.mem_singleton.mp h]
          exact ⟨rfl, rfl⟩
      · exact Machine.outputs_forall (pollSession_silent _ _) _ _ msg h
  · exact fun _ h => (List.not_mem_nil h).elim

/-- What a scrape can make of the binding of a pane. -/
inductive BindCase (s : Server) (pane : PaneRef) (p : PaneInfo) (screen : String) (nowMs : ℕ) :
    Server × Option String × List ProbeMsg → Prop
  | hook {b : Binding} : s.binding pane = some b → b.fromHook = true →
      BindCase s pane p screen nowMs (s, some b.agent, [])
  | kept {b : Binding} : s.binding pane = some b → b.fromHook = false →
      s.rules.identify p.title p.command screen = some b.agent ∨
        s.rules.stillMatches b.agent p.title p.command screen = true →
      BindCase s pane p screen nowMs
        ({ s with agents := s.agents.insert pane { b with misses := 0 } }, some b.agent, [])
  | missed {b : Binding} : s.binding pane = some b → b.fromHook = false →
      s.rules.identify p.title p.command screen ≠ some b.agent →
      s.rules.stillMatches b.agent p.title p.command screen = false →
      b.misses + 1 < missesToExit →
      BindCase s pane p screen nowMs
        ({ s with agents := s.agents.insert pane { b with misses := b.misses + 1 } }, none, [])
  | left {b : Binding} : s.binding pane = some b → b.fromHook = false →
      s.rules.identify p.title p.command screen ≠ some b.agent →
      s.rules.stillMatches b.agent p.title p.command screen = false →
      missesToExit ≤ b.misses + 1 →
      BindCase s pane p screen nowMs
        ({ s with agents := s.agents.erase pane, scrape := s.scrape.forget pane }, none,
          [scrapeEvent pane b.agent .exited nowMs])
  | nothing : s.binding pane = none → s.rules.identify p.title p.command screen = none →
      BindCase s pane p screen nowMs ({ s with exitHold := s.exitHold.erase pane }, none, [])
  | held {agent : String} : s.binding pane = none →
      s.rules.identify p.title p.command screen = some agent → pane ∈ s.exitHold →
      BindCase s pane p screen nowMs (s, none, [])
  | bound {agent : String} : s.binding pane = none →
      s.rules.identify p.title p.command screen = some agent → pane ∉ s.exitHold →
      BindCase s pane p screen nowMs
        ({ s with agents := s.agents.insert pane ⟨agent, false, 0⟩ }, some agent,
          [scrapeEvent pane agent .unknown nowMs])

theorem bindCase (pane : PaneRef) (p : PaneInfo) (screen : String) :
    BindCase s pane p screen nowMs (s.bindScrape pane p screen nowMs) := by
  unfold bindScrape
  cases hb : s.binding pane with
  | some b =>
    simp only
    split_ifs with hh hm hx
    · exact .hook hb hh
    · rw [Bool.or_eq_true, decide_eq_true_eq] at hm
      exact .kept hb (by simpa using hh) hm
    · rw [Bool.or_eq_true, decide_eq_true_eq, not_or] at hm
      exact .missed hb (by simpa using hh) hm.1 (by simpa using hm.2) hx
    · rw [Bool.or_eq_true, decide_eq_true_eq, not_or] at hm
      exact .left hb (by simpa using hh) hm.1 (by simpa using hm.2) (Nat.le_of_not_lt hx)
  | none =>
    cases hf : s.rules.identify p.title p.command screen with
    | none => exact .nothing hb hf
    | some agent =>
      simp only
      split_ifs with hh
      · exact .held hb hf hh
      · exact .bound hb hf hh

/-- What a scrape can make of a visit. -/
inductive ScrapeCase (dump : PaneRef → Except String String) (pane : PaneRef) (p : PaneInfo) :
    Server × List ProbeMsg → Prop
  | failed {e : String} : dump pane = .error e →
      ScrapeCase dump pane p
        ({ s with failing := (report s.failing (.dump pane) (.error "zellij" e)).1 },
          (report s.failing (.dump pane) (.error "zellij" e)).2)
  | unbound {screen : String} {s' : Server} {out : List ProbeMsg} : dump pane = .ok screen →
      bindScrape { s with failing := s.failing.erase (.dump pane) } pane p screen nowMs =
        (s', none, out) →
      ScrapeCase dump pane p (s', out)
  | observed {screen agent : String} {s' : Server} {out : List ProbeMsg} : dump pane = .ok screen →
      bindScrape { s with failing := s.failing.erase (.dump pane) } pane p screen nowMs =
        (s', some agent, out) →
      ScrapeCase dump pane p
        ({ s' with scrape := (s'.scrape.observe lib s'.rules agent pane screen nowMs).1 },
          out ++ ((s'.scrape.observe lib s'.rules agent pane screen nowMs).2.map
            (scrapeEvent pane agent · nowMs)).toList)

theorem scrapeCase (dump : PaneRef → Except String String) (pane : PaneRef) (p : PaneInfo) :
    ScrapeCase lib s nowMs dump pane p (scrapePane lib dump nowMs s (pane, p)) := by
  unfold scrapePane
  simp only
  split
  · rename_i hdump
    exact .failed hdump
  · rename_i hdump
    split
    · rename_i hbind
      exact .unbound hdump hbind
    · rename_i hbind
      exact .observed hdump hbind

theorem bindScrape_silent (pane : PaneRef) (p : PaneInfo) (screen : String) :
    ∀ msg ∈ (s.bindScrape pane p screen nowMs).2.2, msg.Silent := by
  intro msg h
  have hcase := bindCase s nowMs pane p screen
  generalize s.bindScrape pane p screen nowMs = r at h hcase
  cases hcase with
  | left => exact List.mem_singleton.mp h ▸ ⟨rfl, rfl⟩
  | bound => exact List.mem_singleton.mp h ▸ ⟨rfl, rfl⟩
  | _ => cases h

theorem scrapePane_silent (dump : PaneRef → Except String String)
    (target : PaneRef × PaneInfo) : ∀ msg ∈ (scrapePane lib dump nowMs s target).2,
      msg.Silent := by
  obtain ⟨pane, p⟩ := target
  have hcase := scrapeCase lib s nowMs dump pane p
  generalize scrapePane lib dump nowMs s (pane, p) = r at hcase
  cases hcase with
  | failed => exact report_silent _ _ _ _
  | @unbound screen s' out _ hbind =>
    have hsilent := bindScrape_silent { s with failing := s.failing.erase (.dump pane) } nowMs pane p
      screen
    rwa [hbind] at hsilent
  | @observed screen agent s' out _ hbind =>
    have hsilent := bindScrape_silent { s with failing := s.failing.erase (.dump pane) } nowMs pane p
      screen
    rw [hbind] at hsilent
    intro msg h
    rcases List.mem_append.mp h with h | h
    · exact hsilent msg h
    · obtain ⟨state, -, rfl⟩ := Option.map_eq_some_iff.mp (Option.mem_toList.mp h)
      exact ⟨rfl, rfl⟩

theorem scrapeIfDue_silent : ∀ msg ∈ (s.scrapeIfDue lib nowMs a).2, msg.Silent := by
  unfold scrapeIfDue
  split_ifs
  · exact Machine.outputs_forall (fun s t => scrapePane_silent lib s nowMs _ t) _ _
  · exact fun _ h => (List.not_mem_nil h).elim

theorem hooks_tick : hooks (s.tick lib nowMs a).2 =
    match a.read with
    | .ok read => recordEvents read.records
    | .error _ => [] := by
  simp only [tick, hooks_append, hooks_eq_nil (runCleanup_silent _ _ _),
    hooks_eq_nil (pollIfDue_silent _ _ _), hooks_eq_nil (scrapeIfDue_silent _ _ _ _),
    hooks_drainSpool, List.nil_append, List.append_nil]

theorem drainSpool_acks : ∀ msg ∈ (s.drainSpool a).2, msg.AckedByHook := by
  unfold drainSpool
  intro msg h
  split at h
  · split_ifs at h
    · cases h
    · rw [List.mem_singleton.mp h]
      rfl
  · rcases List.mem_append.mp h with h | h
    · split_ifs at h
      · rw [List.mem_singleton.mp h]
        rfl
      · cases h
    · refine Machine.outputs_forall (fun s entry msg hm => ?_) _ _ msg h
      obtain ⟨ev, he, rfl⟩ := Option.map_eq_some_iff.mp (Option.mem_toList.mp hm)
      obtain ⟨hs, -⟩ := SpoolRecord.event_spoolOffset he
      simp [ProbeMsg.AckedByHook, ProbeMsg.ack, ProbeMsg.hook, hs]

theorem tick_acks : ∀ msg ∈ (s.tick lib nowMs a).2, msg.AckedByHook := by
  intro msg h
  simp only [tick, List.mem_append] at h
  rcases h with ((h | h) | h) | h
  · exact (runCleanup_silent _ _ _ msg h).ackedByHook
  · exact drainSpool_acks _ _ msg h
  · exact (pollIfDue_silent _ _ _ msg h).ackedByHook
  · exact (scrapeIfDue_silent _ _ _ _ msg h).ackedByHook

/-- A message of the app is answered with failures only. -/
theorem handle_tells (b : HandleAnswers) (msg : AppMsg) :
    ∀ m ∈ (s.handle lib b msg).2.2, ∃ code text, m = .error code text := by
  have herr : ∀ code r, ∀ m ∈ errOf code r, ∃ code text, m = .error code text := by
    intro code r m h
    cases r with
    | ok => cases h
    | error e => exact ⟨_, _, List.mem_singleton.mp h⟩
  have hz : ∀ m ∈ s.withZellij b.zellij, ∃ code text, m = .error code text := by
    intro m h
    unfold withZellij at h
    split_ifs at h
    · exact herr _ _ m h
    · exact ⟨_, _, List.mem_singleton.mp h⟩
  cases msg with
  | ack offset => exact herr _ _
  | sendText => exact hz
  | focus => exact hz
  | setInterval => exact fun _ h => (List.not_mem_nil h).elim
  | setRules rules =>
    simp only [handle]
    split
    · exact fun _ h => (List.not_mem_nil h).elim
    · exact fun _ h => ⟨_, _, List.mem_singleton.mp h⟩

theorem handle_silent (b : HandleAnswers) (msg : AppMsg) :
    ∀ m ∈ (s.handle lib b msg).2.2, m.Silent := by
  intro m h
  obtain ⟨code, text, rfl⟩ := handle_tells lib s b msg m h
  exact ⟨rfl, rfl⟩

section ReadCursor

theorem readCursor_runCleanup : (s.runCleanup nowMs a).1.readCursor = s.readCursor := by
  unfold runCleanup
  split_ifs
  · split <;> rfl
  · rfl

theorem readCursor_drainRecord (entry : ℕ × SpoolRecord) :
    (drainRecord s entry).1.readCursor = s.readCursor := by
  simp only [drainRecord, bindRecord]
  split_ifs <;> rfl

theorem readCursor_drainSpool : (s.drainSpool a).1.readCursor =
    match a.read with
    | .ok read => read.endCursor
    | .error _ => s.readCursor := by
  cases h : a.read with
  | error e => simp only [drainSpool, h]
  | ok read =>
    simp only [drainSpool, h]
    exact Machine.run_frame _ readCursor_drainRecord _ _

theorem readCursor_pollIfDue : (s.pollIfDue nowMs a).1.readCursor = s.readCursor := by
  unfold pollIfDue pollPanes
  split_ifs
  · split <;> rfl
  · rfl

theorem readCursor_bindScrape (pane : PaneRef) (p : PaneInfo) (screen : String) :
    (s.bindScrape pane p screen nowMs).1.readCursor = s.readCursor := by
  have hcase := bindCase s nowMs pane p screen
  generalize s.bindScrape pane p screen nowMs = r at hcase
  cases hcase <;> rfl

theorem readCursor_scrapePane (dump : PaneRef → Except String String)
    (target : PaneRef × PaneInfo) :
    (scrapePane lib dump nowMs s target).1.readCursor = s.readCursor := by
  obtain ⟨pane, p⟩ := target
  have hcase := scrapeCase lib s nowMs dump pane p
  have hread := fun screen => readCursor_bindScrape
    { s with failing := s.failing.erase (.dump pane) } nowMs pane p screen
  generalize scrapePane lib dump nowMs s (pane, p) = r at hcase
  cases hcase with
  | failed => rfl
  | unbound _ hbind => exact (congrArg (·.1.readCursor) hbind).symm.trans (hread _)
  | observed _ hbind => exact (congrArg (·.1.readCursor) hbind).symm.trans (hread _)

theorem readCursor_scrapeIfDue : (s.scrapeIfDue lib nowMs a).1.readCursor = s.readCursor := by
  unfold scrapeIfDue
  split_ifs
  · exact Machine.run_frame _ (fun s t => readCursor_scrapePane lib s nowMs _ t) _ _
  · rfl

theorem readCursor_tick : (s.tick lib nowMs a).1.readCursor =
    match a.read with
    | .ok read => read.endCursor
    | .error _ => s.readCursor := by
  simp only [tick, readCursor_scrapeIfDue, readCursor_pollIfDue, readCursor_drainSpool,
    readCursor_runCleanup]

theorem readCursor_handle (b : HandleAnswers) (msg : AppMsg) :
    (s.handle lib b msg).1.readCursor = s.readCursor := by
  cases msg with
  | setRules rules =>
    simp only [handle]
    split <;> rfl
  | _ => rfl

end ReadCursor

end Server

end MultiAi
