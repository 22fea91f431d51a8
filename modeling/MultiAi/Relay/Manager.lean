import MultiAi.Monitor.Basic
import MultiAi.Relay.Serve
import Mathlib.Logic.Relation
import Mathlib.Data.List.Count

/-! # Removing and re-adding a host

The host manager, the tasks of every incarnation of one host and the monitor task,
with the queues between them. An event counts when the monitor takes it only if its
incarnation is still current, although it was acknowledged long before.
-/

namespace MultiAi

open Std Spool

inductive Ctl where
  /-- A host was added; its events carry this generation. -/
  | added (id : String) (generation : ℕ)
  | removed (id : String)
  | acknowledge (key : AgentKey)

/-- The running hosts, each by the generation of its tasks. -/
structure HostManager where
  hosts : ExtTreeMap String ℕ
  /-- Bumped on every `addHost`. -/
  generation : ℕ

namespace HostManager

def start : HostManager := ⟨∅, 0⟩

def host (m : HostManager) (id : String) : Option ℕ := m.hosts[id]?

/-- Start monitoring a host, unless one with this id exists. -/
def addHost (m : HostManager) (id : String) : HostManager × List Ctl :=
  if (m.host id).isSome then (m, [])
  else
    let generation := m.generation + 1
    (⟨m.hosts.insert id generation, generation⟩, [.added id generation])

/-- Stop monitoring a host and forget its state. -/
def removeHost (m : HostManager) (id : String) : HostManager × List Ctl :=
  if (m.host id).isSome then ({ m with hosts := m.hosts.erase id }, [.removed id]) else (m, [])

end HostManager

/-- An event on its way to the monitor: its host, its generation and itself. -/
abbrev TaggedEvent := String × ℕ × HostEvent

/-- The state of the monitor task. -/
structure RunMonitor where
  monitor : Monitor
  /-- The generation of each current host. -/
  current : ExtTreeMap String ℕ

namespace RunMonitor

def currentOf (m : RunMonitor) (id : String) : Option ℕ := m.current[id]?

def handleCtl (m : RunMonitor) : Ctl → RunMonitor
  | .added id generation => { m with current := m.current.insert id generation }
  | .removed id => ⟨m.monitor.removeHost id, m.current.erase id⟩
  | .acknowledge key => { m with monitor := (m.monitor.acknowledge key).1 }

/-- Events of a removed host, or of an earlier incarnation of a host added again with
the same id, are dropped. -/
def handleEvent (m : RunMonitor) (nowMs : ℕ) : TaggedEvent → RunMonitor
  | (id, generation, ev) =>
    if m.currentOf id = some generation then
      { m with monitor := (m.monitor.apply id ev nowMs).1 }
    else m

end RunMonitor

/-- The tasks of one incarnation of a host: its serve, if connected, and the channel
of its forwarder. -/
structure HostTask where
  generation : ℕ
  serve : Option Serve
  events : List HostEvent

def HostEvent.hook : HostEvent → Option AgentEvent
  | .msg m => m.hook
  | _ => none

/-- A hook event with the generation that relayed it. -/
abbrev TaggedHook := ℕ × AgentEvent

/-- The machine of a host with its spool, and the app. The histories hold the offsets
stored, the hook events handed on, and what became of them. -/
structure Managed where
  spool : SpoolLog
  ack : ℕ
  manager : HostManager
  tasks : List HostTask
  ctl : List Ctl
  events : List TaggedEvent
  monitor : RunMonitor
  stored : List ℕ
  handed : List TaggedHook
  applied : List TaggedHook
  dropped : List TaggedHook

namespace Managed

/-- No host was added yet; the spool and the stored offset are left from before. -/
def start (spool : SpoolLog) (ack : ℕ) (cfg : TrackerConfig) : Managed where
  spool := spool
  ack := ack
  manager := .start
  tasks := []
  ctl := []
  events := []
  monitor := ⟨.new cfg, ∅⟩
  stored := []
  handed := []
  applied := []
  dropped := []

def tagged (generation : ℕ) (ev : HostEvent) : List TaggedHook :=
  ev.hook.toList.map (generation, ·)

variable (lib : ScrapeLib) (host : String)

def waiting (t : HostTask) : List TaggedHook := t.events.flatMap (tagged t.generation)

/-- Hook events of the host that wait in a forwarder. -/
def inForwarders (tasks : List HostTask) : List TaggedHook := tasks.flatMap waiting

/-- Hook events of the host that wait before the monitor. -/
def inEvents (events : List TaggedEvent) : List TaggedHook :=
  events.flatMap fun (id, generation, ev) => if id = host then tagged generation ev else []

def addHost (s : Managed) (id : String) : Managed :=
  let (manager, ctl) := s.manager.addHost id
  { s with
    manager := manager
    ctl := s.ctl ++ ctl
    tasks := s.tasks ++
      if id = host ∧ ctl ≠ [] then [⟨manager.generation, none, []⟩] else [] }

def removeHost (s : Managed) (id : String) : Managed :=
  let (manager, ctl) := s.manager.removeHost id
  { s with manager := manager, ctl := s.ctl ++ ctl }

/-- A step of the serve of task `t`, with the tasks around it. -/
def afterServe (s : Managed) (pre post : List HostTask) (t : HostTask) (serve : Serve) :
    ServeEvent → Managed
  | .silent => { s with tasks := pre ++ { t with serve := some serve } :: post }
  | .hand msg =>
    { s with
      tasks := pre ++ { t with serve := some serve, events := t.events ++ [.msg msg] } :: post
      handed := s.handed ++ tagged t.generation (.msg msg) }
  | .store offset =>
    { s with
      tasks := pre ++ { t with serve := some serve } :: post
      ack := offset
      stored := s.stored ++ [offset] }

/-- The monitor task takes the next event. -/
def takeEvent (s : Managed) (e : TaggedEvent) (events : List TaggedEvent) (nowMs : ℕ) : Managed :=
  let (id, generation, ev) := e
  let hooks := if id = host then tagged generation ev else []
  { s with
    events := events
    monitor := s.monitor.handleEvent nowMs e
    applied := s.applied ++ if s.monitor.currentOf id = some generation then hooks else []
    dropped := s.dropped ++ if s.monitor.currentOf id = some generation then [] else hooks }

inductive Step : Managed → Managed → Prop
  | append {s : Managed} {x : ℕ × SpoolRecord} : s.spool.top < x.1 →
      Step s { s with spool := s.spool ++ [x] }
  | addHost {s : Managed} {id : String} : Step s (s.addHost host id)
  | removeHost {s : Managed} {id : String} : Step s (s.removeHost id)
  | acknowledge {s : Managed} {key : AgentKey} :
      Step s { s with ctl := s.ctl ++ [.acknowledge key] }
  /-- A task connects, the first time or again: a new serve from the stored offset. -/
  | connect {s : Managed} {pre post : List HostTask} {t : HostTask} {zellij : Bool}
      {rules : CompiledRules} : s.tasks = pre ++ t :: post →
      Step s { s with tasks := pre ++ { t with serve := some (.new zellij rules s.ack) } :: post }
  /-- The link of a task fails, or the task stops. -/
  | disconnect {s : Managed} {pre post : List HostTask} {t : HostTask} :
      s.tasks = pre ++ t :: post → Step s { s with tasks := pre ++ { t with serve := none } :: post }
  | serve {s : Managed} {pre post : List HostTask} {t : HostTask} {l l' : Serve} {ev : ServeEvent} :
      s.tasks = pre ++ t :: post → t.serve = some l → Serve.Step lib s.spool l ev l' →
      Step s (s.afterServe pre post t l' ev)
  /-- A task reports anything that is no probe message. -/
  | emit {s : Managed} {pre post : List HostTask} {t : HostTask} {ev : HostEvent} :
      s.tasks = pre ++ t :: post → (∀ msg, ev ≠ .msg msg) →
      Step s { s with tasks := pre ++ { t with events := t.events ++ [ev] } :: post }
  | forward {s : Managed} {pre post : List HostTask} {t : HostTask} {ev : HostEvent}
      {events : List HostEvent} : s.tasks = pre ++ t :: post → t.events = ev :: events →
      Step s { s with
        tasks := pre ++ { t with events := events } :: post
        events := s.events ++ [(host, t.generation, ev)] }
  /-- A forwarder of another host. -/
  | other {s : Managed} {id : String} {generation : ℕ} {ev : HostEvent} : id ≠ host →
      Step s { s with events := s.events ++ [(id, generation, ev)] }
  | ctl {s : Managed} {c : Ctl} {ctl : List Ctl} : s.ctl = c :: ctl →
      Step s { s with ctl := ctl, monitor := s.monitor.handleCtl c }
  /-- An event is taken only when no control message waits. -/
  | event {s : Managed} {e : TaggedEvent} {events : List TaggedEvent} {nowMs : ℕ} : s.ctl = [] →
      s.events = e :: events → Step s (s.takeEvent host e events nowMs)

/-- A run from a machine whose spool and stored offset are left from before. -/
def Reachable (first : ℕ) (s : Managed) : Prop :=
  ∃ spool cfg, spool.Sorted ∧ first ≤ spool.top ∧
    Relation.ReflTransGen (Step lib host) (start spool first cfg) s

/-- A hook event was acknowledged before the host was first added, or some
incarnation handed it on. -/
def Relayed (first : ℕ) (handed : List TaggedHook) (ev : AgentEvent) : Prop :=
  ev.cursor ≤ first ∨ ∃ generation, (generation, ev) ∈ handed

/-- The generation of the host once the waiting control messages are handled. -/
def settled (ctl : List Ctl) (current : Option ℕ) : Option ℕ :=
  ctl.foldl (fun current c => match c with
    | .added id generation => if id = host then some generation else current
    | .removed id => if id = host then none else current
    | .acknowledge _ => current) current

/-- Some incarnation handed the event on and the monitor applied it. -/
def Applied (s : Managed) (ev : AgentEvent) : Prop :=
  ∃ generation, (generation, ev) ∈ s.applied

/-- An incarnation handed the event on, and it waits on its way to the monitor. -/
def Waiting (s : Managed) (ev : AgentEvent) : Prop :=
  ∃ generation, (generation, ev) ∈ inForwarders s.tasks ∨ (generation, ev) ∈ inEvents host s.events

/-- The monitor dropped the event; the incarnation that handed it on was removed. -/
def Dropped (s : Managed) (ev : AgentEvent) : Prop :=
  ∃ generation, (generation, ev) ∈ s.dropped ∧ s.manager.host host ≠ some generation

/-- No message waits between the manager, the tasks and the monitor. -/
def Quiet (s : Managed) : Prop :=
  s.ctl = [] ∧ s.events = [] ∧ ∀ t ∈ s.tasks, t.events = []

/-- Every event that was acknowledged after the host was first added is applied, or
the next serve reads it again. -/
def LosesNothing (first : ℕ) (s : Managed) : Prop :=
  ∀ offset ∈ s.stored, ∀ ev ∈ recordEvents s.spool, first < ev.cursor → ev.cursor ≤ offset →
    s.Applied ev ∨ s.ack < ev.cursor

structure Inv (first : ℕ) (s : Managed) : Prop where
  sorted : s.spool.Sorted
  top : s.ack ≤ s.spool.top
  ack : s.ack = first ∨ s.ack ∈ s.stored
  stored : ∀ offset ∈ s.stored, offset ≤ s.spool.top ∧
    ∀ ev ∈ recordEvents s.spool, ev.cursor ≤ offset → Relayed first s.handed ev
  serve : ∀ t ∈ s.tasks, ∀ l, t.serve = some l → ∃ p, l.Inv s.spool (Relayed first s.handed) p
  /-- Whatever was handed on is applied, dropped or waiting, once each. -/
  account : ∀ x, s.handed.count x = s.applied.count x + s.dropped.count x +
    ((inForwarders s.tasks).count x + (inEvents host s.events).count x)
  current : settled host s.ctl (s.monitor.currentOf host) = s.manager.host host
  tasks : ∀ t ∈ s.tasks, t.generation ≤ s.manager.generation
  handed : ∀ x ∈ s.handed, x.1 ≤ s.manager.generation
  dropped : ∀ x ∈ s.dropped, s.manager.host host ≠ some x.1

section Manager

variable {host} {ctl : List Ctl} {current : Option ℕ} {m : HostManager} {id : String}

theorem settled_append (ctl' : List Ctl) :
    settled host (ctl ++ ctl') current = settled host ctl' (settled host ctl current) :=
  List.foldl_append

/-- Handling a control message settles it. -/
theorem currentOf_handleCtl (r : RunMonitor) (c : Ctl) :
    (r.handleCtl c).currentOf host = settled host [c] (r.currentOf host) := by
  cases c with
  | added id generation =>
    simp [RunMonitor.handleCtl, RunMonitor.currentOf, settled, ExtTreeMap.getElem?_insert]
  | removed id =>
    simp [RunMonitor.handleCtl, RunMonitor.currentOf, settled, ExtTreeMap.getElem?_erase]
  | acknowledge key => rfl

theorem currentOf_handleEvent (r : RunMonitor) (nowMs : ℕ) (e : TaggedEvent) (id : String) :
    (r.handleEvent nowMs e).currentOf id = r.currentOf id := by
  obtain ⟨id', generation, ev⟩ := e
  simp only [RunMonitor.handleEvent]
  split_ifs <;> rfl

theorem addHost_cases (m : HostManager) (id : String) :
    m.addHost id = (m, []) ∨ (m.addHost id).1.generation = m.generation + 1 ∧
      (m.addHost id).2 = [.added id (m.generation + 1)] ∧
      ∀ id', (m.addHost id).1.host id' = if id = id' then some (m.generation + 1) else m.host id' := by
  unfold HostManager.addHost
  split_ifs
  · exact .inl rfl
  · refine .inr ⟨rfl, rfl, fun id' => ?_⟩
    simp [HostManager.host, ExtTreeMap.getElem?_insert]

theorem removeHost_cases (m : HostManager) (id : String) :
    m.removeHost id = (m, []) ∨ (m.removeHost id).1.generation = m.generation ∧
      (m.removeHost id).2 = [.removed id] ∧
      ∀ id', (m.removeHost id).1.host id' = if id = id' then none else m.host id' := by
  unfold HostManager.removeHost
  split_ifs
  · refine .inr ⟨rfl, rfl, fun id' => ?_⟩
    simp [HostManager.host, ExtTreeMap.getElem?_erase]
  · exact .inl rfl

end Manager

section Steps

variable {lib host} {first : ℕ} {s s' : Managed} {pre post : List HostTask} {t t' : HostTask}

theorem Relayed.mono {handed handed' : List TaggedHook} {ev : AgentEvent}
    (h : Relayed first handed ev) (hh : handed ⊆ handed') : Relayed first handed' ev := by
  rcases h with h | ⟨g, h⟩
  · exact .inl h
  · exact .inr ⟨g, hh h⟩

theorem inv_start {spool : SpoolLog} (hspool : spool.Sorted) (hfirst : first ≤ spool.top)
    (cfg : TrackerConfig) : (start spool first cfg).Inv host first where
  sorted := hspool
  top := hfirst
  ack := .inl rfl
  stored _ h := (List.not_mem_nil h).elim
  serve _ h := (List.not_mem_nil h).elim
  account _ := rfl
  current := by simp [start, settled, RunMonitor.currentOf, HostManager.start, HostManager.host]
  tasks _ h := (List.not_mem_nil h).elim
  handed _ h := (List.not_mem_nil h).elim
  dropped _ h := (List.not_mem_nil h).elim

/-- The stored offset covers only events that were relayed. -/
theorem Inv.acked (h : s.Inv host first) {ev : AgentEvent} (hev : ev ∈ recordEvents s.spool)
    (hle : ev.cursor ≤ s.ack) : Relayed first s.handed ev := by
  rcases h.ack with heq | hmem
  · exact .inl (heq ▸ hle)
  · exact (h.stored _ hmem).2 ev hev hle

theorem forall_set {P : HostTask → Prop} {tasks : List HostTask} (hs : tasks = pre ++ t :: post)
    (h : ∀ u ∈ tasks, P u) (ht : P t') : ∀ u ∈ pre ++ t' :: post, P u := by
  simp only [hs, List.mem_append, List.mem_cons] at h ⊢
  rintro u (hu | rfl | hu)
  · exact h u (.inl hu)
  · exact ht
  · exact h u (.inr (.inr hu))

/-- A task changes: what waits in the forwarders changes by what waits in its own. -/
theorem count_set (pre post : List HostTask) (t t' : HostTask) (x : TaggedHook) :
    (inForwarders (pre ++ t' :: post)).count x + (waiting t).count x =
      (inForwarders (pre ++ t :: post)).count x + (waiting t').count x := by
  simp only [inForwarders, List.flatMap_append, List.flatMap_cons, List.count_append]
  omega

theorem Inv.handed_of_dropped (h : s.Inv host first) {x : TaggedHook} (hx : x ∈ s.dropped) :
    x ∈ s.handed := by
  have hpos := List.count_pos_iff.mpr hx
  have hacc := h.account x
  exact List.count_pos_iff.mp (by omega)

theorem Inv.append (h : s.Inv host first) {x : ℕ × SpoolRecord} (hx : s.spool.top < x.1) :
    Inv host first { s with spool := s.spool ++ [x] } := by
  have htop : s.spool.top ≤ SpoolLog.top (s.spool ++ [x]) := by
    rw [SpoolLog.top_append]
    exact hx.le
  refine { h with
    sorted := h.sorted.append hx
    top := h.top.trans htop
    stored := fun offset ho => ⟨(h.stored offset ho).1.trans htop, fun ev hev hle => ?_⟩
    serve := fun t ht l hl => ?_ }
  · rw [recordEvents_append] at hev
    rcases List.mem_append.mp hev with hev | hev
    · exact (h.stored offset ho).2 ev hev hle
    · obtain ⟨-, -, r, hr, -⟩ := mem_recordEvents hev
      have hc : ev.cursor = x.1 := congrArg Prod.fst (List.mem_singleton.mp hr)
      exact absurd (hle.trans (h.stored offset ho).1) (hc ▸ Nat.not_le_of_lt hx)
  · obtain ⟨p, hp⟩ := h.serve t ht l hl
    exact ⟨p, hp.append hx⟩

/-- One task changes its serve, and reports a probe message. -/
theorem Inv.setTask (h : s.Inv host first) (hs : s.tasks = pre ++ t :: post)
    {serve : Option Serve} (events : List HostEvent) {handed : List TaggedHook}
    (hhanded : handed = s.handed ++ events.flatMap (tagged t.generation))
    (hserve : ∀ l, serve = some l → ∃ p, l.Inv s.spool (Relayed first handed) p) :
    Inv host first { s with
      tasks := pre ++ { t with serve := serve, events := t.events ++ events } :: post
      handed := handed } := by
  have ht : t ∈ s.tasks := by simp [hs]
  have hsub : s.handed ⊆ handed := hhanded ▸ List.subset_append_left _ _
  have hrelayed : ∀ {ev}, Relayed first s.handed ev → Relayed first handed ev :=
    fun hr => hr.mono hsub
  refine { h with
    stored := fun offset ho => ⟨(h.stored offset ho).1, fun ev hev hle =>
      hrelayed ((h.stored offset ho).2 ev hev hle)⟩
    serve := forall_set hs (fun u hu l hl => ?_) hserve
    account := fun x => ?_
    tasks := forall_set hs h.tasks (h.tasks t ht)
    handed := fun x hx => ?_ }
  · obtain ⟨p, hp⟩ := h.serve u hu l hl
    exact ⟨p, hp.mono fun _ => hrelayed⟩
  · have hset := count_set pre post t { t with serve := serve, events := t.events ++ events } x
    have hacc := h.account x
    rw [hs] at hacc
    simp only [waiting, List.flatMap_append, List.count_append] at hset
    simp only [hhanded, List.count_append]
    omega
  · rw [hhanded] at hx
    rcases List.mem_append.mp hx with hx | hx
    · exact h.handed x hx
    · obtain ⟨ev, -, hx⟩ := List.mem_flatMap.mp hx
      obtain ⟨e, -, rfl⟩ := List.mem_map.mp hx
      exact h.tasks t ht

theorem Inv.connect (h : s.Inv host first) (hs : s.tasks = pre ++ t :: post) {serve : Option Serve}
    (hserve : ∀ l, serve = some l → ∃ p, l.Inv s.spool (Relayed first s.handed) p) :
    Inv host first { s with tasks := pre ++ { t with serve := serve } :: post } := by
  have hset := h.setTask hs [] (List.append_nil s.handed).symm hserve
  rw [List.append_nil] at hset
  exact hset

theorem Inv.serveStep (h : s.Inv host first) (hs : s.tasks = pre ++ t :: post) {l l' : Serve}
    {ev : ServeEvent} (ht : t.serve = some l) (hl : Serve.Step lib s.spool l ev l') :
    Inv host first (s.afterServe pre post t l' ev) := by
  obtain ⟨p, hp⟩ := h.serve t (by simp [hs]) l ht
  obtain ⟨hsteps, p', hp'⟩ := hp.step h.sorted hl
  cases ev with
  | silent =>
    refine h.connect hs ?_
    rintro _ ⟨⟩
    exact ⟨p', hp'.mono fun e he => he.resolve_right (by simp)⟩
  | hand msg =>
    refine h.setTask hs [.msg msg] (by simp [tagged]) ?_
    rintro _ ⟨⟩
    refine ⟨p', hp'.mono ?_⟩
    rintro e (he | ⟨m, hm, he⟩)
    · exact he.mono (List.subset_append_left _ _)
    · cases hm
      refine .inr ⟨t.generation, List.mem_append_right _ ?_⟩
      simp [tagged, HostEvent.hook, he]
  | store offset =>
    have hset : Inv host first { s with tasks := pre ++ { t with serve := some l' } :: post } := by
      refine h.connect hs ?_
      rintro _ ⟨⟩
      exact ⟨p', hp'.mono fun e he => he.resolve_right (by simp)⟩
    obtain ⟨htop, hacked⟩ := hsteps.store offset rfl
    refine { hset with top := htop, ack := .inr (by simp [afterServe]), stored := ?_ }
    intro o ho
    rcases List.mem_append.mp ho with ho | ho
    · exact h.stored o ho
    · obtain rfl := List.mem_singleton.mp ho
      exact ⟨htop, hacked⟩

theorem Inv.addHost (h : s.Inv host first) (id : String) : Inv host first (s.addHost host id) := by
  rcases addHost_cases s.manager id with heq | ⟨hgen, hctl, hhost⟩
  · have hsame : s.addHost host id = s := by simp [Managed.addHost, heq]
    exact hsame.symm ▸ h
  · have hnew : (s.addHost host id).tasks = s.tasks ++
        if id = host then [⟨s.manager.generation + 1, none, []⟩] else [] := by
      simp [Managed.addHost, hctl, hgen]
    have hle : ∀ g, g ≤ s.manager.generation → g ≤ (s.addHost host id).manager.generation :=
      fun g hg => hg.trans ((Nat.le_succ _).trans_eq hgen.symm)
    have hmem : ∀ t ∈ (s.addHost host id).tasks,
        t ∈ s.tasks ∨ t = ⟨s.manager.generation + 1, none, []⟩ := by
      intro t ht
      rw [hnew] at ht
      rcases List.mem_append.mp ht with ht | ht
      · exact .inl ht
      · split_ifs at ht
        · exact .inr (List.mem_singleton.mp ht)
        · cases ht
    refine { h with
      serve := fun t ht l hl => ?_
      account := fun x => ?_
      current := ?_
      tasks := fun t ht => ?_
      handed := fun x hx => hle _ (h.handed x hx)
      dropped := fun x hx => ?_ }
    · rcases hmem t ht with ht | rfl
      · exact h.serve t ht l hl
      · cases hl
    · have hwait : inForwarders (s.addHost host id).tasks = inForwarders s.tasks := by
        rw [hnew, inForwarders, List.flatMap_append]
        split_ifs <;> exact List.append_nil _
      rw [hwait]
      exact h.account x
    · change settled host (s.ctl ++ (s.manager.addHost id).2) (s.monitor.currentOf host) =
        (s.manager.addHost id).1.host host
      rw [settled_append, h.current, hctl, hhost]
      rfl
    · rcases hmem t ht with ht | rfl
      · exact hle _ (h.tasks t ht)
      · exact hgen.ge
    · change (s.manager.addHost id).1.host host ≠ some x.1
      rw [hhost]
      split_ifs
      · intro heq
        have hold := h.handed x (h.handed_of_dropped hx)
        rw [← Option.some.inj heq] at hold
        exact absurd hold (Nat.not_succ_le_self _)
      · exact h.dropped x hx

theorem Inv.removeHost (h : s.Inv host first) (id : String) : Inv host first (s.removeHost id) := by
  rcases removeHost_cases s.manager id with heq | ⟨hgen, hctl, hhost⟩
  · have hsame : s.removeHost id = s := by simp [Managed.removeHost, heq]
    exact hsame.symm ▸ h
  · refine { h with
      current := ?_
      tasks := fun t ht => (h.tasks t ht).trans_eq hgen.symm
      handed := fun x hx => (h.handed x hx).trans_eq hgen.symm
      dropped := fun x hx => ?_ }
    · change settled host (s.ctl ++ (s.manager.removeHost id).2) (s.monitor.currentOf host) =
        (s.manager.removeHost id).1.host host
      rw [settled_append, h.current, hctl, hhost]
      rfl
    · change (s.manager.removeHost id).1.host host ≠ some x.1
      rw [hhost]
      split_ifs
      · simp
      · exact h.dropped x hx

/-- Only what waits before the monitor moves, and it is dropped only if its
incarnation was removed. -/
theorem Inv.takeEvent (h : s.Inv host first) {e : TaggedEvent} {events : List TaggedEvent}
    {nowMs : ℕ} (hctl : s.ctl = []) (he : s.events = e :: events) :
    Inv host first (s.takeEvent host e events nowMs) := by
  obtain ⟨id, generation, ev⟩ := e
  have hcur : s.monitor.currentOf host = s.manager.host host := by
    have hcur := h.current
    rwa [hctl] at hcur
  refine { h with account := fun x => ?_, current := ?_, dropped := fun x hx => ?_ }
  · have hacc := h.account x
    simp only [he, inEvents, List.flatMap_cons, List.count_append] at hacc
    simp only [Managed.takeEvent, List.count_append, inEvents]
    by_cases hg : s.monitor.currentOf id = some generation
    · simp only [hg, if_true, List.count_nil]
      omega
    · simp only [hg, if_false, List.count_nil]
      omega
  · exact (congrArg (settled host s.ctl) (currentOf_handleEvent ..)).trans h.current
  · rcases List.mem_append.mp hx with hx | hx
    · exact h.dropped x hx
    · split_ifs at hx with hg hid
      · cases hx
      · obtain ⟨e, -, rfl⟩ := List.mem_map.mp hx
        subst hid
        exact hcur ▸ hg
      · cases hx

theorem Inv.step (h : s.Inv host first) (hs : Step lib host s s') : s'.Inv host first := by
  cases hs with
  | append hx => exact h.append hx
  | @addHost id => exact h.addHost id
  | @removeHost id => exact h.removeHost id
  | @acknowledge key =>
    refine { h with current := ?_ }
    rw [settled_append, h.current]
    rfl
  | connect hs =>
    refine h.connect hs ?_
    rintro _ ⟨⟩
    exact ⟨s.ack, .new (fun ev hev hle => h.acked hev hle) h.top⟩
  | disconnect hs => exact h.connect hs (by simp)
  | serve hs ht hl => exact h.serveStep hs ht hl
  | @emit pre post t ev hs hmsg =>
    have hnone : tagged t.generation ev = [] := by
      cases ev with
      | msg msg => exact absurd rfl (hmsg msg)
      | _ => rfl
    exact h.setTask hs [ev] (by simp [hnone]) (h.serve t (by simp [hs]))
  | @forward pre post t ev events hs ht =>
    refine { h with
      serve := forall_set hs h.serve (h.serve t (by simp [hs]))
      account := fun x => ?_
      tasks := forall_set hs h.tasks (h.tasks t (by simp [hs])) }
    have hset := count_set pre post t { t with events := events } x
    have hacc := h.account x
    rw [hs] at hacc
    simp only [waiting, ht, List.flatMap_cons, List.count_append] at hset
    simp only [inEvents, List.flatMap_append, List.flatMap_cons, List.flatMap_nil, if_true,
      List.append_nil, List.count_append] at hacc ⊢
    omega
  | @other id generation ev hid =>
    refine { h with account := fun x => ?_ }
    simp only [inEvents, List.flatMap_append, List.flatMap_cons, List.flatMap_nil, if_neg hid,
      List.append_nil]
    exact h.account x
  | @ctl c ctl hc =>
    refine { h with current := ?_ }
    have hcur := h.current
    rw [hc, ← List.singleton_append, settled_append, ← currentOf_handleCtl] at hcur
    exact hcur
  | event hc he => exact h.takeEvent hc he

theorem Reachable.inv (h : Reachable lib host first s) : s.Inv host first := by
  obtain ⟨spool, cfg, hspool, hfirst, h⟩ := h
  induction h with
  | refl => exact inv_start hspool hfirst cfg
  | tail _ hs ih => exact ih.step hs

end Steps

section Run

variable {lib : ScrapeLib} {host : String} {first : ℕ} {s s' : Managed}

theorem Reachable.tail (h : Reachable lib host first s) (hs : Step lib host s s') :
    Reachable lib host first s' := by
  obtain ⟨spool, cfg, hspool, hfirst, h⟩ := h
  exact ⟨spool, cfg, hspool, hfirst, h.tail hs⟩

theorem Reachable.add (h : Reachable lib host first s) (hnone : s.manager.host host = none) :
    Reachable lib host first { s with
      manager := ⟨s.manager.hosts.insert host (s.manager.generation + 1), s.manager.generation + 1⟩
      ctl := s.ctl ++ [.added host (s.manager.generation + 1)]
      tasks := s.tasks ++ [⟨s.manager.generation + 1, none, []⟩] } := by
  have heq := h.tail (@Step.addHost lib host s host)
  simpa [Managed.addHost, HostManager.addHost, hnone] using heq

theorem Reachable.remove (h : Reachable lib host first s) {g : ℕ}
    (hsome : s.manager.host host = some g) :
    Reachable lib host first { s with
      manager := { s.manager with hosts := s.manager.hosts.erase host }
      ctl := s.ctl ++ [.removed host] } := by
  have heq := h.tail (@Step.removeHost lib host s host)
  simpa [Managed.removeHost, HostManager.removeHost, hsome] using heq

/-- A host is removed and added again while an event it acknowledged waits in the
forwarder of its first incarnation. -/
theorem reachable_readded : ∃ (lib : ScrapeLib) (s : Managed) (ev : AgentEvent),
    Reachable lib "host" 0 s ∧ recordEvents s.spool = [ev] ∧ ev.cursor = 1 ∧ s.stored = [1] ∧
      s.ack = 1 ∧ s.applied = [] ∧ s.Quiet := by
  let lib : ScrapeLib := ⟨fun _ => .error "", String.length⟩
  let r : SpoolRecord := ⟨5, "claude", "work", 1, .obj [("hook_event_name", .str "Stop")]⟩
  let a : TickAnswers := ⟨.ok 0, .ok ⟨[(1, r)], 0, 1⟩, .ok [], fun _ => .ok [], fun _ => .ok ""⟩
  let ev : AgentEvent := ⟨⟨"work", 1⟩, "claude", .hook, .done, none, 5, some 1⟩
  let read : Server := ((Server.new false 0 ⟨[]⟩).tick lib 7 a).1
  let serve : Serve := ⟨read, [], [], none⟩
  let hosts : ExtTreeMap String ℕ := (∅ : ExtTreeMap String ℕ).insert "host" 1
  have hreads : ∀ rd, a.read = .ok rd → SpoolLog.Reads [(1, r)] 0 rd := by
    rintro _ ⟨⟩
    exact ⟨by decide, .inr (by decide), by rfl⟩
  have h₀ : Reachable lib "host" 0 { start [] 0 .default with spool := [(1, r)] } :=
    Reachable.tail ⟨[], .default, .nil, Nat.le_refl _, .refl⟩ (.append (by decide))
  have h₁ := h₀.add (by simp [start, HostManager.host, HostManager.start])
  have h₂ := h₁.tail (@Step.connect lib "host" _ [] [] _ false ⟨[]⟩ rfl)
  have h₃ := h₂.tail (.serve rfl rfl (@Serve.Step.tick lib _ _ 7 a hreads))
  have h₄ := h₃.tail (.serve (List.nil_append _).symm rfl
    (@Serve.Step.relay lib _ _ (.agentEvent ev) [] rfl rfl))
  have h₅ := h₄.tail (.serve (List.nil_append _).symm rfl (.sendAck rfl))
  have h₆ := h₅.tail (.serve (List.nil_append _).symm rfl (.handle (a := ⟨.ok (), .ok ()⟩) rfl))
  have h₆ : Reachable lib "host" 0 ⟨[(1, r)], 1, ⟨hosts, 1⟩,
      [⟨1, some serve, [.msg (.agentEvent ev)]⟩], [.added "host" 1], [], ⟨.new .default, ∅⟩, [1],
      [(1, ev)], [], []⟩ := h₆
  -- The event is acknowledged and still in the forwarder.
  have h₇ := h₆.remove (g := 1) (by simp [HostManager.host, hosts])
  have h₈ := h₇.add (by simp [HostManager.host])
  have h₉ := ((h₈.tail (.ctl rfl)).tail (.ctl rfl)).tail (.ctl rfl)
  have h := (h₉.tail (.forward (List.nil_append _).symm rfl)).tail (@Step.event lib "host" _ _ _ 9 rfl rfl)
  refine ⟨lib, _, ev, h, rfl, rfl, rfl, rfl, ?_, rfl, rfl, ?_⟩
  · simp [takeEvent, RunMonitor.handleCtl, RunMonitor.currentOf]
  · simp [takeEvent]

/-- An acknowledged event that waited for the monitor is lost when its host is removed
and added again. -/
theorem not_losesNothing : ¬ ∀ (lib : ScrapeLib) (host : String) (first : ℕ) (s : Managed),
    Reachable lib host first s → s.Quiet → s.LosesNothing first := by
  intro hall
  obtain ⟨lib, s, ev, h, hspool, hcursor, hstored, hack, happlied, hquiet⟩ := reachable_readded
  have hone : (1 : ℕ) ∈ s.stored := by simp [hstored]
  have hev : ev ∈ recordEvents s.spool := by simp [hspool]
  rcases hall lib "host" 0 s h hquiet 1 hone ev hev (by omega) hcursor.le with ⟨g, hg⟩ | hlt
  · rw [happlied] at hg
    cases hg
  · omega

/-- An acknowledged event is applied or waits, or it is dropped with the incarnation
that handed it on. -/
theorem acknowledged (h : Reachable lib host first s) :
    ∀ offset ∈ s.stored, ∀ ev ∈ recordEvents s.spool, first < ev.cursor → ev.cursor ≤ offset →
      s.Applied ev ∨ s.Waiting host ev ∨ s.Dropped host ev := by
  intro offset ho ev hev hlt hle
  have h := h.inv
  obtain ⟨generation, hg⟩ := ((h.stored offset ho).2 ev hev hle).resolve_left (Nat.not_le_of_lt hlt)
  have hacc := h.account (generation, ev)
  have hpos := List.count_pos_iff.mpr hg
  by_cases happlied : (generation, ev) ∈ s.applied
  · exact .inl ⟨generation, happlied⟩
  by_cases hdropped : (generation, ev) ∈ s.dropped
  · exact .inr (.inr ⟨generation, hdropped, h.dropped _ hdropped⟩)
  rw [List.count_eq_zero.mpr happlied, List.count_eq_zero.mpr hdropped] at hacc
  refine .inr (.inl ⟨generation, ?_⟩)
  rw [← List.count_pos_iff, ← List.count_pos_iff]
  omega

theorem acknowledged_readded : ∃ (s : Managed) (ev : AgentEvent), s.Dropped "host" ev := by
  obtain ⟨lib, s, ev, h, hspool, hcursor, hstored, -, happlied, -, hevents, htasks⟩ :=
    reachable_readded
  have hone : (1 : ℕ) ∈ s.stored := by simp [hstored]
  have hev : ev ∈ recordEvents s.spool := by simp [hspool]
  refine ⟨s, ev, ?_⟩
  rcases acknowledged h 1 hone ev hev (by omega) hcursor.le with ⟨g, hg⟩ | ⟨g, hg⟩ | hdropped
  · rw [happlied] at hg
    cases hg
  · have hnone : inForwarders s.tasks = [] := by
      refine List.flatMap_eq_nil_iff.mpr fun t ht => ?_
      rw [waiting, htasks t ht]
      rfl
    rw [hnone, hevents] at hg
    rcases hg with hg | hg <;> cases hg
  · exact hdropped

end Run

end Managed

end MultiAi
