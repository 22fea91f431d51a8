import MultiAi.Host.State
import MultiAi.Library.Machine
import MultiAi.Tracker.Basic

/-! # Monitor

Aggregates the events of every host into one view: host states, zellij sessions
and panes, agent states and alerts. Each event returns the updates to show.
-/

namespace MultiAi

open Std OrderedMap

/-- A change the UI should show. -/
inductive Update where
  | host (id : String) (state : HostState) (probe : ConnState) (term : Option ConnState)
  | hello (id : String) (info : HelloInfo)
  | hooks (id : String) (result : Except String (List HookResult))
  | sessions (id : String) (sessions : List SessionInfo)
  | panes (id : String) (session : String) (panes : List PaneInfo)
  | agent (r : AgentRecord)
  | alert (a : Alert)
  | metrics (id : String) (metrics : Metrics)
  | probeError (id : String) (code message : String)
  | notes (id : String) (notes : List String)
  | dropped (id : String) (msg : AppMsg)

/-- What is known about one host. -/
structure HostView where
  probe : Option ConnState
  /-- Terminal connection; `none` while no terminal is open. -/
  term : Option ConnState
  hello : Option HelloInfo
  sessions : List SessionInfo
  panes : ExtTreeMap String (List PaneInfo)
  metrics : Option Metrics

def HostView.default : HostView := ⟨none, none, none, [], ∅, none⟩

/-- A session with this name is in the list and has not exited. -/
def sessionLive (sessions : List SessionInfo) (name : String) : Bool :=
  sessions.any fun s => s.name = name && !s.exited

/-- A pane with this id is in the list and has not exited. -/
def paneLive (panes : List PaneInfo) (id : ℕ) : Bool :=
  panes.any fun p => p.id = id && !p.exited

structure Monitor where
  tracker : Tracker
  hosts : ExtTreeMap String HostView

namespace Monitor

def new (cfg : TrackerConfig) : Monitor := ⟨.new cfg, ∅⟩

def host (m : Monitor) (id : String) : Option HostView := m.hosts[id]?

/-- Mark an agent's alert as seen (the user opened its pane). -/
def acknowledge (m : Monitor) (key : AgentKey) : Monitor × Option Update :=
  match m.tracker.get key with
  | none => (m, none)
  | some was =>
    let tracker := (m.tracker.acknowledge key).1
    ({ m with tracker := tracker },
      if was.acknowledged then none else (tracker.get key).map .agent)

/-- Forget a host that was removed from the configuration. -/
def removeHost (m : Monitor) (id : String) : Monitor := { m with hosts := m.hosts.erase id }

/-- Host state from both connections; a probe connection not reported yet counts
as connecting. -/
def hostUpdate (id : String) (view : HostView) : Update :=
  let probe := view.probe.getD .connecting
  .host id (hostState probe view.term) probe view.term

/-- The view of a host, a default one if it was not seen before. -/
def view (m : Monitor) (id : String) : HostView := (m.host id).getD .default

def setView (m : Monitor) (id : String) (view : HostView) : Monitor :=
  { m with hosts := m.hosts.insert id view }

/-- An agent of host `id` (in `session`, if given) that is not exited yet although
its pane is gone according to `live`. -/
def isGone (id : String) (session : Option String) (live : String → ℕ → Bool)
    (r : AgentRecord) : Bool :=
  r.key.hostId = id && session.all (r.key.session = ·) && r.state ≠ .exited &&
    !live r.key.session r.key.paneId

def markGone (nowMs : ℕ) (t : Tracker) (key : AgentKey) : Tracker × List Update :=
  let t := t.paneGone key nowMs
  (t, ((t.get key).map Update.agent).toList)

/-- Mark those agents as exited. -/
def agentsGone (t : Tracker) (id : String) (session : Option String)
    (live : String → ℕ → Bool) (nowMs : ℕ) : Tracker × List Update :=
  let gone := (t.records.filter (isGone id session live)).map AgentRecord.key
  (Machine.run (markGone nowMs) t gone, Machine.outputs (markGone nowMs) t gone)

/-- A new agent, a new state or a new unacknowledged alert, then the alert. -/
def agentEvent (t : Tracker) (id : String) (ev : AgentEvent) : Tracker × List Update :=
  let key := AgentKey.fromEvent id ev
  let summary (r : AgentRecord) := (r.state, r.acknowledged)
  let before := (t.get key).map summary
  let (t, alert) := t.apply id ev
  (t, ((t.get key).filter fun r => before ≠ some (summary r)).toList.map .agent ++
    alert.toList.map .alert)

def applyMsg (m : Monitor) (id : String) (msg : ProbeMsg) (nowMs : ℕ) :
    Monitor × List Update :=
  let view := m.view id
  let m := m.setView id view
  match msg with
  | .sessions sessions =>
    let view := { view with
      panes := view.panes.filter fun name _ => sessionLive sessions name
      sessions := sessions }
    let (t, gone) := agentsGone m.tracker id none (fun s _ => sessionLive sessions s) nowMs
    ({ m.setView id view with tracker := t }, .sessions id sessions :: gone)
  | .panes session panes =>
    let view := { view with panes := view.panes.insert session panes }
    let (t, gone) := agentsGone m.tracker id (some session) (fun _ p => paneLive panes p) nowMs
    ({ m.setView id view with tracker := t }, .panes id session panes :: gone)
  | .agentEvent ev =>
    let (t, out) := agentEvent m.tracker id ev
    ({ m with tracker := t }, out)
  | .metrics metrics =>
    (m.setView id { view with metrics := some metrics }, [.metrics id metrics])
  | .error code message => (m, [.probeError id code message])
  | .hello .. => (m, [])
  | .heartbeat _ => (m, [])

def apply (m : Monitor) (id : String) (ev : HostEvent) (nowMs : ℕ) : Monitor × List Update :=
  let view := m.view id
  let m := m.setView id view
  match ev with
  | .probe state =>
    let view := { view with probe := some state }
    (m.setView id view, [hostUpdate id view])
  | .term state =>
    let view := { view with term := state }
    (m.setView id view, [hostUpdate id view])
  | .hello info => (m.setView id { view with hello := some info }, [.hello id info])
  | .hooks result => (m, [.hooks id result])
  | .notes notes => (m, [.notes id notes])
  | .dropped msg => (m, [.dropped id msg])
  | .msg msg => m.applyMsg id msg nowMs

section Gone

variable {t : Tracker} {id : String} {session : Option String} {live : String → ℕ → Bool}
  {nowMs : ℕ}

theorem agents_run_markGone (t : Tracker) (keys : List AgentKey) :
    (Machine.run (markGone nowMs) t keys).agents = modifyAll (.gone nowMs) t.agents keys := by
  induction keys generalizing t with
  | nil => rfl
  | cons k keys ih => exact ih _

@[simp] theorem cfg_run_markGone (t : Tracker) (keys : List AgentKey) :
    (Machine.run (markGone nowMs) t keys).cfg = t.cfg := by
  induction keys generalizing t with
  | nil => rfl
  | cons k keys ih => exact ih _

theorem outputs_markGone (t : Tracker) {keys : List AgentKey} (hn : keys.Nodup) :
    Machine.outputs (markGone nowMs) t keys =
      keys.filterMap fun k => (t.get k).map fun r => .agent (r.gone nowMs) := by
  induction keys generalizing t with
  | nil => rfl
  | cons k keys ih =>
    obtain ⟨hk, hn⟩ := List.nodup_cons.mp hn
    have hrest : ∀ a ∈ keys, (markGone nowMs t k).1.get a = t.get a := by
      intro a ha
      have hne : k ≠ a := fun e => hk (e ▸ ha)
      exact (Tracker.get_paneGone ..).trans (if_neg hne)
    rw [Machine.outputs_cons, ih _ hn, List.filterMap_cons]
    have hself : (markGone nowMs t k).2 =
        ((t.get k).map fun r => Update.agent (r.gone nowMs)).toList := by
      simp only [markGone, Tracker.get_paneGone, if_true, Option.map_map, Function.comp_def]
    rw [hself, List.filterMap_congr fun a ha => by rw [hrest a ha]]
    cases t.get k <;> rfl

theorem nodup_goneKeys (t : Tracker) (p : AgentRecord → Bool) :
    ((t.records.filter p).map AgentRecord.key).Nodup :=
  t.nodup_records_key.sublist (List.filter_sublist.map _)

theorem mem_goneKeys (p : AgentRecord → Bool) (k : AgentKey) :
    k ∈ (t.records.filter p).map AgentRecord.key ↔ ∃ r, t.get k = some r ∧ p r := by
  simp only [List.mem_map, List.mem_filter, Tracker.mem_records]
  constructor
  · rintro ⟨r, ⟨hr, hp⟩, rfl⟩
    exact ⟨r, hr, hp⟩
  · rintro ⟨r, hr, hp⟩
    have hk := t.keyed k r hr
    exact ⟨r, ⟨hk ▸ hr, hp⟩, hk⟩

theorem get_agentsGone (k : AgentKey) :
    (agentsGone t id session live nowMs).1.get k =
      (t.get k).map fun r => if isGone id session live r then r.gone nowMs else r := by
  simp only [agentsGone, Tracker.get, agents_run_markGone]
  by_cases h : ∃ r, t.get k = some r ∧ isGone id session live r
  · rw [getElem?_modifyAll_of_mem _ _ (nodup_goneKeys t _) ((mem_goneKeys _ k).mpr h)]
    obtain ⟨r, hr, hg⟩ := h
    rw [show t.agents[k]? = some r from hr, Option.map_some, Option.map_some, if_pos hg]
  · rw [getElem?_modifyAll_of_not_mem _ _ ((mem_goneKeys _ k).not.mpr h)]
    cases hr : t.agents[k]? with
    | none => rfl
    | some r => rw [Option.map_some, if_neg fun hg => h ⟨r, hr, hg⟩]

@[simp] theorem cfg_agentsGone : (agentsGone t id session live nowMs).1.cfg = t.cfg :=
  cfg_run_markGone ..

theorem outputs_agentsGone :
    (agentsGone t id session live nowMs).2 =
      ((t.records.filter (isGone id session live)).map AgentRecord.key).filterMap
        fun k => (t.get k).map fun r => .agent (r.gone nowMs) :=
  outputs_markGone t (nodup_goneKeys t _)

end Gone

/-- What a message of host `id` does to the record of one agent. -/
def onMsg (cfg : TrackerConfig) (key : AgentKey) (id : String) (msg : ProbeMsg) (nowMs : ℕ)
    (r : Option AgentRecord) : Option AgentRecord :=
  match msg with
  | .sessions sessions =>
    r.map fun r => if isGone id none (fun s _ => sessionLive sessions s) r then r.gone nowMs else r
  | .panes session panes =>
    r.map fun r =>
      if isGone id (some session) (fun _ p => paneLive panes p) r then r.gone nowMs else r
  | .agentEvent ev =>
    if AgentKey.fromEvent id ev = key then some ((r.getD (.initial key ev)).apply cfg ev).1 else r
  | .metrics _ => r
  | .error _ _ => r
  | .hello .. => r
  | .heartbeat _ => r

section Frame

variable (m : Monitor) (id : String) (nowMs : ℕ)

@[simp] theorem tracker_setView (view : HostView) : (m.setView id view).tracker = m.tracker := rfl

theorem host_setView (view : HostView) (id' : String) :
    (m.setView id view).host id' = if id = id' then some view else m.host id' := by
  simp only [host, setView, ExtTreeMap.getElem?_insert, LawfulEqCmp.compare_eq_iff_eq]

theorem tracker_agentEvent (t : Tracker) (ev : AgentEvent) :
    (agentEvent t id ev).1 = (t.apply id ev).1 := rfl

/-- The monitor keeps every agent's record on its own. -/
theorem get_applyMsg (msg : ProbeMsg) (key : AgentKey) :
    (m.applyMsg id msg nowMs).1.tracker.get key =
      onMsg m.tracker.cfg key id msg nowMs (m.tracker.get key) := by
  cases msg with
  | sessions sessions => exact get_agentsGone key
  | panes session panes => exact get_agentsGone key
  | agentEvent ev =>
    simp only [applyMsg, onMsg, tracker_setView, tracker_agentEvent, Tracker.get_apply]
    rfl
  | metrics => rfl
  | error => rfl
  | hello => rfl
  | heartbeat => rfl

@[simp] theorem cfg_applyMsg (msg : ProbeMsg) :
    (m.applyMsg id msg nowMs).1.tracker.cfg = m.tracker.cfg := by
  cases msg with
  | sessions => exact cfg_agentsGone
  | panes => exact cfg_agentsGone
  | agentEvent => rfl
  | metrics => rfl
  | error => rfl
  | hello => rfl
  | heartbeat => rfl

/-- What an event of host `id` does to the record of one agent. -/
def onEvent (cfg : TrackerConfig) (key : AgentKey) (id : String) (ev : HostEvent) (nowMs : ℕ)
    (r : Option AgentRecord) : Option AgentRecord :=
  match ev with
  | .msg msg => onMsg cfg key id msg nowMs r
  | _ => r

theorem get_apply (ev : HostEvent) (key : AgentKey) :
    (m.apply id ev nowMs).1.tracker.get key =
      onEvent m.tracker.cfg key id ev nowMs (m.tracker.get key) := by
  cases ev with
  | msg msg => exact get_applyMsg _ id nowMs msg key
  | probe => rfl
  | hello => rfl
  | hooks => rfl
  | dropped => rfl
  | term => rfl
  | notes => rfl

@[simp] theorem cfg_apply (ev : HostEvent) :
    (m.apply id ev nowMs).1.tracker.cfg = m.tracker.cfg := by
  cases ev with
  | msg msg => exact cfg_applyMsg _ id nowMs msg
  | probe => rfl
  | hello => rfl
  | hooks => rfl
  | dropped => rfl
  | term => rfl
  | notes => rfl

/-- What an event does to the view of its host. -/
def onView (ev : HostEvent) (view : HostView) : HostView :=
  match ev with
  | .probe state => { view with probe := some state }
  | .term state => { view with term := state }
  | .hello info => { view with hello := some info }
  | .msg (.sessions sessions) =>
    { view with
      panes := view.panes.filter fun name _ => sessionLive sessions name
      sessions := sessions }
  | .msg (.panes session panes) => { view with panes := view.panes.insert session panes }
  | .msg (.metrics metrics) => { view with metrics := some metrics }
  | _ => view

/-- An event changes the view of its own host only. -/
theorem host_apply (ev : HostEvent) (id' : String) :
    (m.apply id ev nowMs).1.host id' =
      if id = id' then some (onView ev (m.view id)) else m.host id' := by
  have hself : (m.setView id (m.view id)).view id = m.view id := by
    rw [view, host_setView, if_pos rfl, Option.getD_some]
  have hset (v w : HostView) : ((m.setView id v).setView id w).host id' =
      if id = id' then some w else m.host id' := by
    simp only [host_setView]
    split_ifs <;> rfl
  have hset₃ (v w u : HostView) : (((m.setView id v).setView id w).setView id u).host id' =
      if id = id' then some u else m.host id' := by
    simp only [host_setView]
    split_ifs <;> rfl
  cases ev with
  | msg msg =>
    cases msg with
    | sessions => exact (hset₃ _ _ _).trans (by rw [hself]; rfl)
    | panes => exact (hset₃ _ _ _).trans (by rw [hself]; rfl)
    | agentEvent => exact (hset _ _).trans (by rw [hself]; rfl)
    | metrics => exact (hset₃ _ _ _).trans (by rw [hself]; rfl)
    | error => exact (hset _ _).trans (by rw [hself]; rfl)
    | hello => exact (hset _ _).trans (by rw [hself]; rfl)
    | heartbeat => exact (hset _ _).trans (by rw [hself]; rfl)
  | probe => exact hset _ _
  | hello => exact hset _ _
  | hooks => exact host_setView ..
  | dropped => exact host_setView ..
  | term => exact hset _ _
  | notes => exact host_setView ..

@[simp] theorem cfg_acknowledge (k : AgentKey) :
    (m.acknowledge k).1.tracker.cfg = m.tracker.cfg := by
  unfold acknowledge
  cases m.tracker.get k <;> rfl

theorem host_acknowledge (k : AgentKey) (id' : String) :
    (m.acknowledge k).1.host id' = m.host id' := by
  unfold acknowledge
  cases m.tracker.get k <;> rfl

theorem get_acknowledge (k key : AgentKey) :
    (m.acknowledge k).1.tracker.get key =
      if k = key then (m.tracker.get key).map .acknowledge else m.tracker.get key := by
  unfold acknowledge
  cases h : m.tracker.get k with
  | none =>
    split_ifs with hk
    · rw [← hk, h]; rfl
    · rfl
  | some r => exact Tracker.get_acknowledge ..

end Frame

end Monitor

end MultiAi
