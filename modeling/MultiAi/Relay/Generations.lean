import MultiAi.Library.Log
import MultiAi.Relay.Manager

/-! # The generation filter of the monitor task

The manager, the forwarder of every incarnation of every host, and the monitor task with its
two queues. A control message is taken whenever one waits, an event only otherwise; an event
is applied if its incarnation is the current one.
-/

namespace MultiAi

open Std Machine

/-- What happens between the manager and the monitor. -/
inductive Fact where
  | added (id : String) (generation : ℕ)
  /-- The removal of the host is requested; it had this generation. -/
  | removed (id : String) (generation : ℕ)
  | emitted (id : String) (generation : ℕ) (ev : HostEvent)
  | tookAdded (id : String) (generation : ℕ)
  /-- The monitor takes a removal; this generation was current. -/
  | tookRemoved (id : String) (generation : Option ℕ)
  | applied (id : String) (generation : ℕ) (ev : HostEvent)
  | dropped (id : String) (generation : ℕ) (ev : HostEvent)

/-- The monitor task with the zellij paths it shares with the terminal tasks. -/
structure Watcher where
  task : RunMonitor
  zellij : ExtTreeMap String String

namespace Watcher

def currentOf (w : Watcher) (id : String) : Option ℕ := w.task.currentOf id

def pathOf (w : Watcher) (id : String) : Option String := w.zellij[id]?

def handleCtl (w : Watcher) (c : Ctl) : Watcher × List Fact :=
  match c with
  | .added id generation => (⟨w.task.handleCtl c, w.zellij⟩, [.tookAdded id generation])
  | .removed id =>
    (⟨w.task.handleCtl c, w.zellij.erase id⟩, [.tookRemoved id (w.currentOf id)])
  | .acknowledge _ => (⟨w.task.handleCtl c, w.zellij⟩, [])

/-- Terminals attach with the zellij the probe found. -/
def setPath (w : Watcher) (id : String) : HostEvent → ExtTreeMap String String
  | .hello info =>
    match info.zellijPath with
    | some p => w.zellij.insert id p
    | none => w.zellij.erase id
  | _ => w.zellij

def handleEvent (w : Watcher) (nowMs : ℕ) (e : TaggedEvent) : Watcher × List Fact :=
  let (id, generation, ev) := e
  if w.currentOf id = some generation then
    (⟨w.task.handleEvent nowMs e, w.setPath id ev⟩, [.applied id generation ev])
  else (w, [.dropped id generation ev])

end Watcher

/-- The manager, the channels of the forwarders by generation, and the monitor task. -/
structure Fleet where
  manager : HostManager
  channels : ExtTreeMap ℕ (String × List HostEvent)
  ctl : List Ctl
  events : List TaggedEvent
  watcher : Watcher

namespace Fleet

inductive Input where
  | addHost (id : String)
  | removeHost (id : String)
  | acknowledge (key : AgentKey)
  /-- A task of this incarnation emits an event, also after its removal. -/
  | emit (generation : ℕ) (ev : HostEvent)
  | forward (generation : ℕ)
  /-- The monitor task takes what is next. -/
  | monitor (nowMs : ℕ)

def start (cfg : TrackerConfig) : Fleet := ⟨.start, ∅, [], [], ⟨⟨.new cfg, ∅⟩, ∅⟩⟩

def addHost (s : Fleet) (id : String) : Fleet × List Fact :=
  match s.manager.addHost id with
  | (manager, []) => ({ s with manager := manager }, [])
  | (manager, ctl) =>
    ({ s with
        manager := manager
        ctl := s.ctl ++ ctl
        channels := s.channels.insert manager.generation (id, []) },
      [.added id manager.generation])

def removeHost (s : Fleet) (id : String) : Fleet × List Fact :=
  let (manager, ctl) := s.manager.removeHost id
  ({ s with manager := manager, ctl := s.ctl ++ ctl },
    (s.manager.host id).toList.map (.removed id))

def emit (s : Fleet) (generation : ℕ) (ev : HostEvent) : Fleet × List Fact :=
  match s.channels[generation]? with
  | some (id, evs) =>
    ({ s with channels := s.channels.insert generation (id, evs ++ [ev]) },
      [.emitted id generation ev])
  | none => (s, [])

def forward (s : Fleet) (generation : ℕ) : Fleet × List Fact :=
  match s.channels[generation]? with
  | some (id, ev :: evs) =>
    ({ s with
        channels := s.channels.insert generation (id, evs)
        events := s.events ++ [(id, generation, ev)] }, [])
  | _ => (s, [])

/-- A control message that waits is taken first. -/
def monitor (s : Fleet) (nowMs : ℕ) : Fleet × List Fact :=
  match s.ctl, s.events with
  | c :: ctl, _ =>
    let (watcher, out) := s.watcher.handleCtl c
    ({ s with ctl := ctl, watcher := watcher }, out)
  | [], e :: events =>
    let (watcher, out) := s.watcher.handleEvent nowMs e
    ({ s with events := events, watcher := watcher }, out)
  | [], [] => (s, [])

def step (s : Fleet) : Input → Fleet × List Fact
  | .addHost id => s.addHost id
  | .removeHost id => s.removeHost id
  | .acknowledge key => ({ s with ctl := s.ctl ++ [.acknowledge key] }, [])
  | .emit generation ev => s.emit generation ev
  | .forward generation => s.forward generation
  | .monitor nowMs => s.monitor nowMs

/-- An incarnation of a host comes or goes. -/
inductive Turn where
  | comes (generation : ℕ)
  | goes (generation : ℕ)
  deriving DecidableEq, Repr

/-- The incarnations the manager was asked to start and to stop. -/
def requested (log : List Fact) (id : String) : List Turn := log.filterMap fun
  | .added id' generation => if id' = id then some (.comes generation) else none
  | .removed id' generation => if id' = id then some (.goes generation) else none
  | _ => none

/-- Those of them the monitor has taken. -/
def taken (log : List Fact) (id : String) : List Turn := log.filterMap fun
  | .tookAdded id' generation => if id' = id then some (.comes generation) else none
  | .tookRemoved id' generation => if id' = id then generation.map .goes else none
  | _ => none

/-- The events of an incarnation that were emitted. -/
def emittedBy (log : List Fact) (id : String) (generation : ℕ) : List HostEvent :=
  log.filterMap fun
  | .emitted id' g ev => if id' = id ∧ g = generation then some ev else none
  | _ => none

def appliedOf (log : List Fact) (id : String) (generation : ℕ) : List HostEvent :=
  log.filterMap fun
  | .applied id' g ev => if id' = id ∧ g = generation then some ev else none
  | _ => none

def droppedOf (log : List Fact) (id : String) (generation : ℕ) : List HostEvent :=
  log.filterMap fun
  | .dropped id' g ev => if id' = id ∧ g = generation then some ev else none
  | _ => none

/-- The events of an incarnation that wait before the monitor. -/
def waiting (events : List TaggedEvent) (id : String) (generation : ℕ) : List HostEvent :=
  events.filterMap fun (id', g, ev) => if id' = id ∧ g = generation then some ev else none

/-- The events of an incarnation that wait in its forwarder. -/
def inChannel (s : Fleet) (id : String) (generation : ℕ) : List HostEvent :=
  match s.channels[generation]? with
  | some (id', evs) => if id' = id then evs else []
  | none => []

/-- Its events on their way, the oldest first. -/
def onWay (s : Fleet) (id : String) (generation : ℕ) : List HostEvent :=
  waiting s.events id generation ++ s.inChannel id generation

/-- The path an applied hello of the incarnation names. -/
def namesPath (id : String) (generation : ℕ) : Fact → Option (Option String)
  | .applied id' g (.hello info) =>
    if id' = id ∧ g = generation then some info.zellijPath else none
  | _ => none

/-- The incarnations of a host alternate: from one that is current to the next. -/
inductive Alternates : Option ℕ → List Turn → Option ℕ → Prop
  | nil (c : Option ℕ) : Alternates c [] c
  | comes {g : ℕ} {ts : List Turn} {c : Option ℕ} : Alternates (some g) ts c →
      Alternates none (.comes g :: ts) c
  | goes {g : ℕ} {ts : List Turn} {c : Option ℕ} : Alternates none ts c →
      Alternates (some g) (.goes g :: ts) c

section Alternates

variable {a b c : Option ℕ} {ts ts' : List Turn} {g : ℕ}

theorem Alternates.trans (h : Alternates a ts b) (h' : Alternates b ts' c) :
    Alternates a (ts ++ ts') c := by
  induction h with
  | nil => exact h'
  | comes _ ih => exact .comes (ih h')
  | goes _ ih => exact .goes (ih h')

/-- The current incarnation was the last to come. -/
theorem Alternates.current (h : Alternates a ts c) (hc : c = some g) :
    ts = [] ∧ a = c ∨ ∃ old, ts = old ++ [.comes g] := by
  induction h with
  | nil => exact Or.inl ⟨rfl, rfl⟩
  | comes _ ih =>
    rcases ih hc with ⟨rfl, hg⟩ | ⟨old, rfl⟩
    · cases hg.trans hc
      exact Or.inr ⟨[], rfl⟩
    · exact Or.inr ⟨_ :: old, rfl⟩
  | goes _ ih =>
    rcases ih hc with ⟨-, hg⟩ | ⟨old, rfl⟩
    · cases hg.trans hc
    · exact Or.inr ⟨_ :: old, rfl⟩

/-- An incarnation that came and did not go is current. -/
theorem Alternates.stays (h : Alternates a ts c) (hc : .comes g ∈ ts) (hg : .goes g ∉ ts) :
    c = some g := by
  induction h with
  | nil => cases hc
  | @comes g' ts c hts ih =>
    have hg' : .goes g ∉ ts := fun hm => hg (List.mem_cons_of_mem _ hm)
    rcases List.mem_cons.mp hc with heq | hc
    · cases heq
      cases hts with
      | nil => rfl
      | goes => exact absurd List.mem_cons_self (fun hm => hg (List.mem_cons_of_mem _ hm))
    · exact ih hc hg'
  | goes _ ih =>
    exact ih ((List.mem_cons.mp hc).resolve_left nofun) fun hm => hg (List.mem_cons_of_mem _ hm)

theorem Alternates.cut (h : Alternates a (ts ++ ts') c) :
    ∃ b, Alternates a ts b ∧ Alternates b ts' c := by
  induction ts generalizing a with
  | nil => exact ⟨a, .nil a, h⟩
  | cons t ts ih =>
    cases h with
    | comes h =>
      obtain ⟨b, h, h'⟩ := ih h
      exact ⟨b, .comes h, h'⟩
    | goes h =>
      obtain ⟨b, h, h'⟩ := ih h
      exact ⟨b, .goes h, h'⟩

/-- What is current is told by the last turn. -/
theorem Alternates.last (h : Alternates a ts c) (ha : a = none) :
    c = some g ↔ ts.getLast? = some (.comes g) := by
  subst ha
  constructor
  · intro hc
    rcases h.current hc with ⟨-, hnone⟩ | ⟨old, rfl⟩
    · cases hnone.trans hc
    · exact List.getLast?_concat
  · intro hlast
    obtain ⟨old, rfl⟩ := List.getLast?_eq_some_iff.mp hlast
    obtain ⟨b, -, hb⟩ := h.cut
    cases hb with
    | comes hb =>
      cases hb
      rfl

/-- The first turn from a current incarnation. -/
theorem Alternates.goes_iff {t : Turn} (h : Alternates (some g) (t :: ts) c) :
    t = .goes g ∧ Alternates none ts c := by
  cases h with
  | goes h => exact ⟨rfl, h⟩

theorem Alternates.comes_iff {t : Turn} (h : Alternates none (t :: ts) c) :
    ∃ g, t = .comes g ∧ Alternates (some g) ts c := by
  cases h with
  | comes h => exact ⟨_, rfl, h⟩

/-- An incarnation that goes came before. -/
theorem Alternates.came (h : Alternates a ts c) (hg : .goes g ∈ ts) :
    a = some g ∨ .comes g ∈ ts := by
  induction h with
  | nil => cases hg
  | comes _ ih =>
    rcases ih ((List.mem_cons.mp hg).resolve_left nofun) with heq | hm
    · cases heq
      exact Or.inr List.mem_cons_self
    · exact Or.inr (List.mem_cons_of_mem _ hm)
  | goes _ ih =>
    rcases List.mem_cons.mp hg with heq | hg
    · cases heq
      exact Or.inl rfl
    · exact Or.inr (List.mem_cons_of_mem _ ((ih hg).resolve_left nofun))

/-- A current incarnation has not gone, if none comes twice. -/
theorem Alternates.not_gone (h : Alternates none ts (some g)) (hn : ts.Nodup) : .goes g ∉ ts := by
  intro hg
  rcases h.current rfl with ⟨-, hnone⟩ | ⟨old, rfl⟩
  · cases hnone
  · have hold : .goes g ∈ old := by simpa using hg
    obtain ⟨b, h, -⟩ := h.cut
    have hcame := (h.came hold).resolve_left nofun
    exact (List.nodup_append.mp hn).2.2 _ hcame _ (List.mem_singleton_self _) rfl

end Alternates

section Steps

/-- What a step can do. -/
inductive Moves (s : Fleet) : Fleet → List Fact → Prop
  | rests : Moves s s []
  | acknowledges {key : AgentKey} : Moves s { s with ctl := s.ctl ++ [.acknowledge key] } []
  | adds {id : String} {manager : HostManager} : s.manager.host id = none →
      manager.generation = s.manager.generation + 1 →
      (∀ id', manager.host id' = if id = id' then some manager.generation else s.manager.host id') →
      Moves s { s with
        manager := manager
        ctl := s.ctl ++ [.added id manager.generation]
        channels := s.channels.insert manager.generation (id, []) }
        [.added id manager.generation]
  | removes {id : String} {g : ℕ} {manager : HostManager} : s.manager.host id = some g →
      manager.generation = s.manager.generation →
      (∀ id', manager.host id' = if id = id' then none else s.manager.host id') →
      Moves s { s with manager := manager, ctl := s.ctl ++ [.removed id] } [.removed id g]
  | emits {id : String} {g : ℕ} {evs : List HostEvent} {ev : HostEvent} :
      s.channels[g]? = some (id, evs) →
      Moves s { s with channels := s.channels.insert g (id, evs ++ [ev]) } [.emitted id g ev]
  | forwards {id : String} {g : ℕ} {evs : List HostEvent} {ev : HostEvent} :
      s.channels[g]? = some (id, ev :: evs) →
      Moves s { s with
        channels := s.channels.insert g (id, evs)
        events := s.events ++ [(id, g, ev)] } []
  | controls {c : Ctl} {ctl : List Ctl} : s.ctl = c :: ctl →
      Moves s { s with ctl := ctl, watcher := (s.watcher.handleCtl c).1 } (s.watcher.handleCtl c).2
  | applies {id : String} {g : ℕ} {ev : HostEvent} {events : List TaggedEvent} {nowMs : ℕ} :
      s.ctl = [] → s.events = (id, g, ev) :: events → s.watcher.currentOf id = some g →
      Moves s { s with
        events := events
        watcher := ⟨s.watcher.task.handleEvent nowMs (id, g, ev), s.watcher.setPath id ev⟩ }
        [.applied id g ev]
  | drops {id : String} {g : ℕ} {ev : HostEvent} {events : List TaggedEvent} :
      s.ctl = [] → s.events = (id, g, ev) :: events → s.watcher.currentOf id ≠ some g →
      Moves s { s with events := events } [.dropped id g ev]

/-- A step that takes a removal does nothing else. -/
theorem Moves.removal {s s' : Fleet} {out : List Fact} {id : String} {current : Option ℕ}
    (h : Moves s s' out) (htook : .tookRemoved id current ∈ out) :
    out = [.tookRemoved id current] := by
  cases h with
  | @controls c ctl hctl =>
    cases c with
    | removed id' =>
      obtain heq := List.mem_singleton.mp htook
      rw [heq]
      rfl
    | _ => simp [Watcher.handleCtl] at htook
  | _ => simp at htook

variable (s : Fleet)

theorem moves_addHost (id : String) : Moves s (s.addHost id).1 (s.addHost id).2 := by
  unfold addHost
  rcases Managed.addHost_cases s.manager id with h | ⟨hg, hctl, hhost⟩
  · rw [h]
    exact .rests
  · have hnone : s.manager.host id = none := by
      cases hid : s.manager.host id with
      | none => rfl
      | some g => simp [HostManager.addHost, hid] at hctl
    generalize s.manager.addHost id = r at hg hctl hhost ⊢
    obtain ⟨manager, ctl⟩ := r
    simp only at hg hctl hhost
    subst hctl
    rw [← hg]
    exact .adds hnone hg fun id' => by rw [hhost, hg]

theorem moves_removeHost (id : String) : Moves s (s.removeHost id).1 (s.removeHost id).2 := by
  unfold removeHost
  cases hid : s.manager.host id with
  | none =>
    have h : s.manager.removeHost id = (s.manager, []) := by simp [HostManager.removeHost, hid]
    rw [h]
    simpa using Moves.rests (s := s)
  | some g =>
    rcases Managed.removeHost_cases s.manager id with h | ⟨hg, hctl, hhost⟩
    · simp [HostManager.removeHost, hid] at h
    · generalize s.manager.removeHost id = r at hg hctl hhost ⊢
      obtain ⟨manager, ctl⟩ := r
      simp only at hg hctl hhost
      subst hctl
      exact .removes hid hg hhost

/-- Every step is one of the moves. -/
theorem step_moves (i : Input) : Moves s (s.step i).1 (s.step i).2 := by
  cases i with
  | addHost id => exact moves_addHost s id
  | removeHost id => exact moves_removeHost s id
  | acknowledge key => exact .acknowledges
  | emit g ev =>
    simp only [step, emit]
    split
    · rename_i h
      exact .emits h
    · exact .rests
  | forward g =>
    simp only [step, forward]
    split
    · rename_i h
      exact .forwards h
    · exact .rests
  | monitor nowMs =>
    simp only [step, monitor]
    split
    · rename_i c ctl _ hctl
      exact .controls hctl
    · rename_i e events hctl hevents
      obtain ⟨id, g, ev⟩ := e
      by_cases hcur : s.watcher.currentOf id = some g
      · simp only [Watcher.handleEvent, hcur, if_true]
        exact .applies hctl hevents hcur
      · simp only [Watcher.handleEvent, hcur, if_false]
        exact .drops hctl hevents hcur
    · exact .rests

end Steps

section Turns

def Turn.ctl (id : String) : Turn → Ctl
  | .comes g => .added id g
  | .goes _ => .removed id

/-- A control message about a host that comes or goes. -/
def about (id : String) : Ctl → Bool
  | .added id' _ => id' = id
  | .removed id' => id' = id
  | .acknowledge _ => false

/-- What the monitor has taken and the control messages that wait are what was requested, and
the incarnations of a host alternate and are never the same. -/
structure Ordered (id : String) (log : List Fact) (s : Fleet) : Prop where
  ahead : ∃ pend, s.ctl.filter (about id) = pend.map (Turn.ctl id) ∧
    requested log id = taken log id ++ pend ∧
    Alternates (s.watcher.currentOf id) pend (s.manager.host id)
  past : Alternates none (taken log id) (s.watcher.currentOf id)
  le : ∀ g, .comes g ∈ requested log id → g ≤ s.manager.generation
  nodup : (requested log id).Nodup

variable {id id' : String} {g : ℕ} {log out : List Fact} {s s' : Fleet}

theorem requested_append : requested (log ++ out) id = requested log id ++ requested out id :=
  List.filterMap_append

theorem taken_append : taken (log ++ out) id = taken log id ++ taken out id :=
  List.filterMap_append

/-- A step that asks for nothing and takes nothing. -/
theorem Ordered.frame (h : Ordered id log s) (hr : requested out id = []) (ht : taken out id = [])
    (hctl : s'.ctl.filter (about id) = s.ctl.filter (about id))
    (hcur : s'.watcher.currentOf id = s.watcher.currentOf id)
    (hhost : s'.manager.host id = s.manager.host id)
    (hgen : s.manager.generation ≤ s'.manager.generation) : Ordered id (log ++ out) s' := by
  have hr' : requested (log ++ out) id = requested log id := by
    rw [requested_append, hr, List.append_nil]
  have ht' : taken (log ++ out) id = taken log id := by rw [taken_append, ht, List.append_nil]
  constructor
  · rw [hr', ht', hctl, hcur, hhost]
    exact h.ahead
  · rw [ht', hcur]
    exact h.past
  · rw [hr']
    exact fun g hg => (h.le g hg).trans hgen
  · rw [hr']
    exact h.nodup

theorem currentOf_handleCtl_fst (w : Watcher) (c : Ctl) :
    (w.handleCtl c).1.currentOf id = match c with
      | .added id' g => if id' = id then some g else w.currentOf id
      | .removed id' => if id' = id then none else w.currentOf id
      | .acknowledge _ => w.currentOf id := by
  have h : (w.handleCtl c).1.currentOf id = (w.task.handleCtl c).currentOf id := by
    cases c <;> rfl
  rw [h, Managed.currentOf_handleCtl]
  cases c <;> rfl

/-- A requested turn is appended to the control messages. -/
theorem Ordered.ask (h : Ordered id log s) {t : Turn} {host : Option ℕ}
    (hr : requested out id = [t]) (ht : taken out id = [])
    (hctl : s'.ctl.filter (about id) = s.ctl.filter (about id) ++ [t.ctl id])
    (hcur : s'.watcher.currentOf id = s.watcher.currentOf id)
    (hhost : Alternates (s.manager.host id) [t] host) (hhost' : s'.manager.host id = host)
    (hgen : s.manager.generation ≤ s'.manager.generation)
    (hle : ∀ g, t = .comes g → g ≤ s'.manager.generation) (hnew : t ∉ requested log id) :
    Ordered id (log ++ out) s' := by
  obtain ⟨pend, hpend, hreq, halt⟩ := h.ahead
  have hr' : requested (log ++ out) id = requested log id ++ [t] := by rw [requested_append, hr]
  have ht' : taken (log ++ out) id = taken log id := by rw [taken_append, ht, List.append_nil]
  constructor
  · refine ⟨pend ++ [t], ?_, ?_, ?_⟩
    · rw [hctl, hpend, List.map_append]
      rfl
    · rw [hr', ht', hreq, List.append_assoc]
    · rw [hcur, hhost']
      exact halt.trans hhost
  · rw [ht', hcur]
    exact h.past
  · rw [hr']
    intro g hg
    rcases List.mem_append.mp hg with hg | hg
    · exact (h.le g hg).trans hgen
    · exact hle g (List.mem_singleton.mp hg).symm
  · rw [hr']
    exact List.nodup_append.mpr ⟨h.nodup, List.nodup_singleton _,
      fun a ha b hb hab => hnew (List.mem_singleton.mp hb ▸ hab ▸ ha)⟩

/-- The first control message about the host is taken. -/
theorem Ordered.take (h : Ordered id log s) {c : Ctl} {ctl : List Ctl} (hctl : s.ctl = c :: ctl)
    (habout : about id c) :
    Ordered id (log ++ (s.watcher.handleCtl c).2)
        { s with ctl := ctl, watcher := (s.watcher.handleCtl c).1 } ∧
      ∃ t, t.ctl id = c ∧ taken (s.watcher.handleCtl c).2 id = [t] ∧
        Alternates (s.watcher.currentOf id) [t] ((s.watcher.handleCtl c).1.currentOf id) := by
  obtain ⟨pend, hpend, hreq, halt⟩ := h.ahead
  rw [hctl, List.filter_cons_of_pos habout] at hpend
  cases pend with
  | nil => cases hpend
  | cons t pend =>
    obtain ⟨rfl, hrest⟩ := List.cons.inj hpend
    have hr : requested (s.watcher.handleCtl (t.ctl id)).2 id = [] := by
      cases t <;> rfl
    have hturn : taken (s.watcher.handleCtl (t.ctl id)).2 id = [t] ∧
        Alternates (s.watcher.currentOf id) [t]
          ((s.watcher.handleCtl (t.ctl id)).1.currentOf id) ∧
        Alternates ((s.watcher.handleCtl (t.ctl id)).1.currentOf id) pend
          (s.manager.host id) := by
      rw [currentOf_handleCtl_fst]
      cases t with
      | comes g =>
        refine ⟨by simp [Turn.ctl, Watcher.handleCtl, taken], ?_⟩
        cases hcur : s.watcher.currentOf id with
        | none =>
          rw [hcur] at halt
          obtain ⟨g', hg, hlater⟩ := halt.comes_iff
          cases hg
          simp only [Turn.ctl, if_true]
          exact ⟨.comes (.nil _), hlater⟩
        | some g' =>
          rw [hcur] at halt
          cases halt.goes_iff.1
      | goes g =>
        cases hcur : s.watcher.currentOf id with
        | none =>
          rw [hcur] at halt
          obtain ⟨g', hg, -⟩ := halt.comes_iff
          cases hg
        | some g' =>
          rw [hcur] at halt
          obtain ⟨hg, hlater⟩ := halt.goes_iff
          cases hg
          simp only [Turn.ctl, if_true]
          exact ⟨by simp [Watcher.handleCtl, taken, hcur], .goes (.nil _), hlater⟩
    obtain ⟨htook, hone, hlater⟩ := hturn
    have hr' : requested (log ++ (s.watcher.handleCtl (t.ctl id)).2) id = requested log id := by
      rw [requested_append, hr, List.append_nil]
    refine ⟨?_, t, rfl, htook, hone⟩
    constructor
    · refine ⟨pend, hrest, ?_, hlater⟩
      rw [hr', taken_append, htook, hreq, List.append_assoc]
      rfl
    · rw [taken_append, htook]
      exact h.past.trans hone
    · rw [hr']
      exact h.le
    · rw [hr']
      exact h.nodup

theorem Ordered.moves (h : Ordered id log s) (hm : Moves s s' out) : Ordered id (log ++ out) s' := by
  cases hm with
  | rests => exact h.frame rfl rfl rfl rfl rfl (Nat.le_refl _)
  | acknowledges =>
    exact h.frame rfl rfl (by simp [List.filter_append, about]) rfl rfl (Nat.le_refl _)
  | @adds id' manager hnone hgen hhost =>
    by_cases hid : id' = id
    · subst hid
      have hnew : Turn.comes manager.generation ∉ requested log id' := by
        intro hmem
        have hle := h.le _ hmem
        omega
      have halt : Alternates (s.manager.host id') [.comes manager.generation]
          (some manager.generation) := hnone ▸ .comes (.nil _)
      refine h.ask (t := .comes manager.generation) (by simp [requested]) rfl
        (by simp [List.filter_append, about, Turn.ctl]) rfl halt
        (by simp [hhost]) (by simp only [hgen]; omega) ?_ hnew
      intro g hg
      cases hg
      exact Nat.le_refl _
    · exact h.frame (by simp [requested, hid]) rfl (by simp [List.filter_append, about, hid]) rfl
        (by simp [hhost, hid]) (by simp only [hgen]; omega)
  | @removes id' g manager hsome hgen hhost =>
    by_cases hid : id' = id
    · subst hid
      have hnew : Turn.goes g ∉ requested log id' := by
        obtain ⟨pend, -, hreq, halt⟩ := h.ahead
        have hall : Alternates none (requested log id') (some g) := hsome ▸ hreq ▸ h.past.trans halt
        exact hall.not_gone h.nodup
      have halt : Alternates (s.manager.host id') [.goes g] none := hsome ▸ .goes (.nil _)
      refine h.ask (t := .goes g) (by simp [requested]) rfl
        (by simp [List.filter_append, about, Turn.ctl]) rfl halt
        (by simp [hhost]) (by simp only [hgen]; omega) nofun hnew
    · exact h.frame (by simp [requested, hid]) rfl (by simp [List.filter_append, about, hid]) rfl
        (by simp [hhost, hid]) (by simp only [hgen]; omega)
  | emits => exact h.frame rfl rfl rfl rfl rfl (Nat.le_refl _)
  | forwards => exact h.frame rfl rfl rfl rfl rfl (Nat.le_refl _)
  | @controls c ctl hctl =>
    by_cases habout : about id c
    · exact (h.take hctl habout).1
    · refine h.frame ?_ ?_ ?_ ?_ rfl (Nat.le_refl _)
      · cases c <;> rfl
      · cases c with
        | acknowledge key => rfl
        | added id' g' =>
          have hne : id' ≠ id := by simpa [about] using habout
          simp [Watcher.handleCtl, taken, hne]
        | removed id' =>
          have hne : id' ≠ id := by simpa [about] using habout
          simp [Watcher.handleCtl, taken, hne]
      · rw [hctl, List.filter_cons_of_neg habout]
      · rw [currentOf_handleCtl_fst]
        cases c with
        | acknowledge key => rfl
        | _ => exact if_neg (by simpa [about] using habout)
  | applies =>
    refine h.frame rfl rfl rfl ?_ rfl (Nat.le_refl _)
    exact Managed.currentOf_handleEvent ..
  | drops => exact h.frame rfl rfl rfl rfl rfl (Nat.le_refl _)

theorem Ordered.taken_ahead (h : Ordered id log s) : taken log id <+: requested log id := by
  obtain ⟨pend, -, hreq, -⟩ := h.ahead
  exact ⟨pend, hreq.symm⟩

theorem Ordered.taken_nodup (h : Ordered id log s) : (taken log id).Nodup :=
  h.nodup.sublist h.taken_ahead.sublist

/-- What is current was requested last, and did not go, once no control message waits. -/
theorem Ordered.current (h : Ordered id log s) (hcur : s.watcher.currentOf id = some g) :
    (∃ ts, taken log id = ts ++ [.comes g]) ∧ .goes g ∉ taken log id := by
  have hpast := h.past
  rw [hcur] at hpast
  refine ⟨?_, hpast.not_gone h.taken_nodup⟩
  exact (hpast.current rfl).resolve_left fun h => nomatch h.2

theorem Ordered.settled (h : Ordered id log s) (hctl : s.ctl = []) :
    requested log id = taken log id := by
  obtain ⟨pend, hpend, hreq, -⟩ := h.ahead
  rw [hctl] at hpend
  rw [hreq, List.map_eq_nil_iff.mp hpend.symm, List.append_nil]

end Turns

section Events

/-- Where the events of the incarnations are. -/
structure Carried (log : List Fact) (s : Fleet) : Prop where
  keys : ∀ g x, s.channels[g]? = some x → .comes g ∈ requested log x.1
  queued : ∀ x ∈ s.events, .comes x.2.1 ∈ requested log x.1
  account : ∀ id g, emittedBy log id g = appliedOf log id g ++ droppedOf log id g ++ s.onWay id g
  gone : ∀ pre id g ev post, log = pre ++ .dropped id g ev :: post → .goes g ∈ taken pre id
  latest : ∀ pre id g ev post, log = pre ++ .applied id g ev :: post →
    (∃ ts, requested pre id = ts ++ [.comes g] ∧ taken pre id = ts ++ [.comes g]) ∧
      .goes g ∉ taken pre id

variable {id id' : String} {g g' : ℕ} {log out : List Fact} {s s' : Fleet} {ev : HostEvent}

theorem emittedBy_append :
    emittedBy (log ++ out) id g = emittedBy log id g ++ emittedBy out id g := List.filterMap_append

theorem appliedOf_append :
    appliedOf (log ++ out) id g = appliedOf log id g ++ appliedOf out id g := List.filterMap_append

theorem droppedOf_append :
    droppedOf (log ++ out) id g = droppedOf log id g ++ droppedOf out id g := List.filterMap_append

theorem mem_requested_append {t : Turn} (h : t ∈ requested log id) :
    t ∈ requested (log ++ out) id := by
  rw [requested_append]
  exact List.mem_append_left _ h

/-- A dropped event belongs to an incarnation whose removal was taken. -/
theorem Carried.goes (h : Carried log s) (hd : droppedOf log id g ≠ []) :
    .goes g ∈ taken log id := by
  obtain ⟨ev, hev⟩ := List.exists_mem_of_ne_nil _ hd
  obtain ⟨x, hx, hxe⟩ := List.mem_filterMap.mp hev
  cases x with
  | dropped id' g' ev' =>
    simp only at hxe
    split_ifs at hxe with heq
    obtain ⟨rfl, rfl⟩ := heq
    obtain ⟨pre, post, hlog⟩ := List.append_of_mem hx
    have hgone := h.gone pre id' g' ev' post hlog
    rw [hlog, taken_append]
    exact List.mem_append_left _ hgone
  | _ => cases hxe

theorem Carried.gone_append (h : Carried log s) (hout : ∀ id g ev, .dropped id g ev ∉ out) :
    ∀ pre id g ev post, log ++ out = pre ++ .dropped id g ev :: post → .goes g ∈ taken pre id := by
  intro pre id g ev post heq
  obtain ⟨mid, hlog, -⟩ := Log.cut_of_not_mem heq (hout id g ev)
  exact h.gone pre id g ev mid hlog

theorem Carried.latest_append (h : Carried log s) (hout : ∀ id g ev, .applied id g ev ∉ out) :
    ∀ pre id g ev post, log ++ out = pre ++ .applied id g ev :: post →
      (∃ ts, requested pre id = ts ++ [.comes g] ∧ taken pre id = ts ++ [.comes g]) ∧
        .goes g ∉ taken pre id := by
  intro pre id g ev post heq
  obtain ⟨mid, hlog, -⟩ := Log.cut_of_not_mem heq (hout id g ev)
  exact h.latest pre id g ev mid hlog

/-- A step that moves no event. -/
theorem Carried.frame (h : Carried log s)
    (hout : ∀ x ∈ out, ∀ id g ev, x ≠ .emitted id g ev ∧ x ≠ .applied id g ev ∧ x ≠ .dropped id g ev)
    (hkeys : ∀ g x, s'.channels[g]? = some x → .comes g ∈ requested (log ++ out) x.1)
    (hchannel : ∀ id g, s'.inChannel id g = s.inChannel id g) (hevents : s'.events = s.events) :
    Carried (log ++ out) s' := by
  have hnone : ∀ id g, emittedBy out id g = [] ∧ appliedOf out id g = [] ∧ droppedOf out id g = [] := by
    intro id g
    refine ⟨?_, ?_, ?_⟩
    all_goals
      refine List.filterMap_eq_nil_iff.mpr fun x hx => ?_
      have hno := hout x hx
      cases x with
      | emitted id g ev => exact absurd rfl (hno id g ev).1
      | applied id g ev => exact absurd rfl (hno id g ev).2.1
      | dropped id g ev => exact absurd rfl (hno id g ev).2.2
      | _ => rfl
  constructor
  · exact hkeys
  · rw [hevents]
    exact fun x hx => mem_requested_append (h.queued x hx)
  · intro id g
    obtain ⟨he, ha, hd⟩ := hnone id g
    rw [emittedBy_append, appliedOf_append, droppedOf_append, he, ha, hd, h.account, onWay, onWay,
      hevents, hchannel]
    simp
  · exact h.gone_append fun id g ev hx => (hout _ hx id g ev).2.2 rfl
  · exact h.latest_append fun id g ev hx => (hout _ hx id g ev).2.1 rfl

theorem inChannel_insert {evs : List HostEvent} (hc : s'.channels = s.channels.insert g (id, evs)) :
    s'.inChannel id' g' =
      if g = g' then (if id = id' then evs else []) else s.inChannel id' g' := by
  unfold inChannel
  rw [hc, ExtTreeMap.getElem?_insert]
  by_cases hg : g = g' <;> simp [hg]

theorem inChannel_of {evs : List HostEvent} (hc : s.channels[g]? = some (id, evs)) :
    s.inChannel id' g' = if g = g' then (if id = id' then evs else []) else s.inChannel id' g' := by
  split_ifs with hg hid
  · subst hg hid
    simp [inChannel, hc]
  · subst hg
    simp [inChannel, hc, hid]
  · rfl

theorem Carried.keys_insert {evs : List HostEvent} (h : Carried log s)
    (hkey : .comes g ∈ requested (log ++ out) id) :
    ∀ g' x, (s.channels.insert g (id, evs))[g']? = some x → .comes g' ∈ requested (log ++ out) x.1 := by
  intro g' x hx
  rw [ExtTreeMap.getElem?_insert] at hx
  split_ifs at hx with heq
  · cases hx
    obtain rfl : g = g' := by simpa using heq
    exact hkey
  · exact mem_requested_append (h.keys g' x hx)

theorem Carried.moves (h : Carried log s) (ho : ∀ id, Ordered id log s) (hm : Moves s s' out) :
    Carried (log ++ out) s' := by
  cases hm with
  | rests =>
    rw [List.append_nil]
    exact h
  | acknowledges =>
    exact h.frame (by simp) (fun g x hx => mem_requested_append (h.keys g x hx)) (fun _ _ => rfl) rfl
  | @adds id manager hnone hgen hhost =>
    have hempty : s.channels[manager.generation]? = none := by
      cases hc : s.channels[manager.generation]? with
      | none => rfl
      | some x =>
        have hle := (ho x.1).le _ (h.keys _ _ hc)
        omega
    refine h.frame (by simp) (h.keys_insert ?_) ?_ rfl
    · rw [requested_append]
      simp [requested]
    · intro id' g
      rw [inChannel_insert (s := s) rfl]
      split_ifs with hg hid
      · subst hg
        simp [inChannel, hempty]
      · subst hg
        simp [inChannel, hempty]
      · rfl
  | removes =>
    exact h.frame (by simp) (fun g x hx => mem_requested_append (h.keys g x hx)) (fun _ _ => rfl) rfl
  | @emits id g evs ev hc =>
    have hkey : .comes g ∈ requested log id := h.keys g _ hc
    constructor
    · exact h.keys_insert (mem_requested_append hkey)
    · exact fun x hx => mem_requested_append (h.queued x hx)
    · intro id' g'
      have hnew := @inChannel_insert id id' g g' s
        { s with channels := s.channels.insert g (id, evs ++ [ev]) } _ rfl
      rw [emittedBy_append, appliedOf_append, droppedOf_append, h.account, onWay, onWay, hnew,
        inChannel_of hc]
      by_cases hg : g = g' <;> by_cases hid : id = id' <;>
        simp [emittedBy, appliedOf, droppedOf, hg, hid]
    · exact h.gone_append (by simp)
    · exact h.latest_append (by simp)
  | @forwards id g evs ev hc =>
    have hkey : .comes g ∈ requested log id := h.keys g _ hc
    constructor
    · exact h.keys_insert (mem_requested_append hkey)
    · intro x hx
      rcases List.mem_append.mp hx with hx | hx
      · exact mem_requested_append (h.queued x hx)
      · obtain rfl := List.mem_singleton.mp hx
        exact mem_requested_append hkey
    · intro id' g'
      have hnew := @inChannel_insert id id' g g' s { s with
        channels := s.channels.insert g (id, evs)
        events := s.events ++ [(id, g, ev)] } _ rfl
      rw [List.append_nil, h.account, onWay, onWay, hnew, inChannel_of hc, waiting, waiting,
        List.filterMap_append]
      by_cases hg : g = g' <;> by_cases hid : id = id' <;> simp [hg, hid]
    · exact h.gone_append (by simp)
    · exact h.latest_append (by simp)
  | @controls c ctl hctl =>
    refine h.frame ?_ (fun g x hx => mem_requested_append (h.keys g x hx)) (fun _ _ => rfl) rfl
    cases c <;> simp [Watcher.handleCtl]
  | @applies id g ev events nowMs hctl hevents hcur =>
    obtain ⟨⟨ts, hts⟩, hgoes⟩ := (ho id).current hcur
    have hlive : droppedOf log id g = [] := by
      by_contra hd
      exact hgoes (h.goes hd)
    constructor
    · exact fun g x hx => mem_requested_append (h.keys g x hx)
    · exact fun x hx => mem_requested_append (h.queued x (hevents ▸ List.mem_cons_of_mem _ hx))
    · intro id' g'
      rw [emittedBy_append, appliedOf_append, droppedOf_append, h.account, onWay, onWay, hevents]
      by_cases hg : g = g' <;> by_cases hid : id = id'
      · subst hg hid
        rw [hlive]
        simp [emittedBy, appliedOf, droppedOf, waiting, inChannel]
      all_goals simp [emittedBy, appliedOf, droppedOf, waiting, inChannel, hg, hid]
    · exact h.gone_append (by simp)
    · intro pre id' g' ev' post heq
      rcases Log.concat_eq_cut.mp heq with ⟨mid, hlog, -⟩ | ⟨rfl, hmid, -⟩
      · exact h.latest pre id' g' ev' mid hlog
      · cases hmid
        exact ⟨⟨ts, (ho id).settled hctl ▸ hts, hts⟩, hgoes⟩
  | @drops id g ev events hctl hevents hcur =>
    have hgoes : .goes g ∈ taken log id := by
      by_contra hgoes
      have hcame : .comes g ∈ taken log id := by
        rw [← (ho id).settled hctl]
        exact h.queued (id, g, ev) (hevents ▸ List.mem_cons_self)
      exact hcur ((ho id).past.stays hcame hgoes)
    constructor
    · exact fun g x hx => mem_requested_append (h.keys g x hx)
    · exact fun x hx => mem_requested_append (h.queued x (hevents ▸ List.mem_cons_of_mem _ hx))
    · intro id' g'
      rw [emittedBy_append, appliedOf_append, droppedOf_append, h.account, onWay, onWay, hevents]
      by_cases hg : g = g' <;> by_cases hid : id = id' <;>
        simp [emittedBy, appliedOf, droppedOf, waiting, inChannel, hg, hid]
    · intro pre id' g' ev' post heq
      rcases Log.concat_eq_cut.mp heq with ⟨mid, hlog, -⟩ | ⟨rfl, hmid, -⟩
      · exact h.gone pre id' g' ev' mid hlog
      · cases hmid
        exact hgoes
    · exact h.latest_append (by simp)

end Events

section Paths

variable {id : String} {g : ℕ} {log out : List Fact} {s s' : Fleet}

/-- The path of a current incarnation is that of its last applied hello. -/
structure Pathed (id : String) (log : List Fact) (s : Fleet) : Prop where
  path : s.watcher.pathOf id = match s.watcher.currentOf id with
    | some g => Log.latest (namesPath id g) none log
    | none => none
  /-- Nothing is applied of an incarnation before it comes. -/
  silent : ∀ g, .comes g ∉ taken log id → ∀ x ∈ log, namesPath id g x = none

/-- A step that takes a control message and applies nothing. -/
theorem Pathed.take (h : Pathed id log s) (hout : ∀ g, ∀ x ∈ out, namesPath id g x = none)
    (hpath : s'.watcher.pathOf id = match s'.watcher.currentOf id with
      | some g => Log.latest (namesPath id g) none log
      | none => none) : Pathed id (log ++ out) s' := by
  constructor
  · rw [hpath]
    split
    · rw [Log.latest_append, Log.latest_of_silent (hout _)]
    · rfl
  · intro g hg x hx
    rcases List.mem_append.mp hx with hx | hx
    · exact h.silent g (fun hm => hg (taken_append ▸ List.mem_append_left _ hm)) x hx
    · exact hout g x hx

/-- A step that takes no control message of the host and applies nothing of it. -/
theorem Pathed.frame (h : Pathed id log s) (hout : ∀ g, ∀ x ∈ out, namesPath id g x = none)
    (hcur : s'.watcher.currentOf id = s.watcher.currentOf id)
    (hpath : s'.watcher.pathOf id = s.watcher.pathOf id) : Pathed id (log ++ out) s' := by
  refine h.take hout ?_
  rw [hpath, hcur]
  exact h.path

theorem Pathed.moves (h : Pathed id log s) (ho : Ordered id log s) (hm : Moves s s' out) :
    Pathed id (log ++ out) s' := by
  cases hm with
  | rests => exact h.frame (by simp) rfl rfl
  | acknowledges => exact h.frame (by simp) rfl rfl
  | adds => exact h.frame (by simp [namesPath]) rfl rfl
  | removes => exact h.frame (by simp [namesPath]) rfl rfl
  | emits => exact h.frame (by simp [namesPath]) rfl rfl
  | forwards => exact h.frame (by simp) rfl rfl
  | drops => exact h.frame (by simp [namesPath]) rfl rfl
  | @controls c ctl hctl =>
    have hout : ∀ g, ∀ x ∈ (s.watcher.handleCtl c).2, namesPath id g x = none := by
      intro g
      cases c <;> simp [Watcher.handleCtl, namesPath]
    by_cases habout : about id c
    · obtain ⟨hnext, t, ht, htook, hturn⟩ := ho.take hctl habout
      refine h.take hout ?_
      cases t with
      | comes g =>
        have hnew : .comes g ∉ taken log id := by
          have hnodup := hnext.taken_nodup
          rw [taken_append, htook] at hnodup
          exact fun hm => (List.nodup_append.mp hnodup).2.2 _ hm _ (List.mem_singleton_self _) rfl
        cases hcur : s.watcher.currentOf id with
        | some g' =>
          rw [hcur] at hturn
          cases hturn.goes_iff.1
        | none =>
          have hpath := h.path
          rw [hcur] at hpath
          subst ht
          simp only [Turn.ctl, currentOf_handleCtl_fst, if_true]
          rw [Log.latest_of_silent (h.silent g hnew)]
          exact hpath
      | goes g =>
        subst ht
        simp only [Turn.ctl, currentOf_handleCtl_fst, if_true]
        simp [Watcher.handleCtl, Watcher.pathOf]
    · refine h.frame hout ?_ ?_
      · rw [currentOf_handleCtl_fst]
        cases c with
        | acknowledge key => rfl
        | _ => exact if_neg (by simpa [about] using habout)
      · cases c with
        | removed id' =>
          have hne : id' ≠ id := by simpa [about] using habout
          simp [Watcher.handleCtl, Watcher.pathOf, ExtTreeMap.getElem?_erase, hne]
        | _ => rfl
  | @applies id' g ev events nowMs hctl hevents hcur =>
    have hsame : (s.watcher.task.handleEvent nowMs (id', g, ev)).currentOf id =
        s.watcher.currentOf id := Managed.currentOf_handleEvent ..
    by_cases hid : id' = id
    · subst hid
      have hcomes : .comes g ∈ taken log id' := by
        obtain ⟨⟨ts, hts⟩, -⟩ := ho.current hcur
        exact hts ▸ List.mem_append_right _ (List.mem_singleton_self _)
      constructor
      · have hpath := h.path
        rw [hcur] at hpath
        have hnow : ({ s with events := events, watcher :=
            ⟨s.watcher.task.handleEvent nowMs (id', g, ev), s.watcher.setPath id' ev⟩ } :
              Fleet).watcher.currentOf id' = some g := hsame.trans hcur
        rw [hnow]
        simp only [Log.latest_concat]
        cases ev with
        | hello info =>
          cases hinfo : info.zellijPath <;>
            simp [Watcher.pathOf, Watcher.setPath, namesPath, hinfo]
        | _ => exact hpath
      · intro g' hg x hx
        rcases List.mem_append.mp hx with hx | hx
        · exact h.silent g' (fun hm => hg (taken_append ▸ List.mem_append_left _ hm)) x hx
        · have hne : g ≠ g' := by
            rintro rfl
            exact hg (taken_append ▸ List.mem_append_left _ hcomes)
          obtain rfl := List.mem_singleton.mp hx
          cases ev <;> simp [namesPath, hne]
    · refine h.frame ?_ hsame ?_
      · intro g' x hx
        obtain rfl := List.mem_singleton.mp hx
        cases ev <;> simp [namesPath, hid]
      · cases ev with
        | hello info =>
          cases hinfo : info.zellijPath <;>
            simp [Watcher.pathOf, Watcher.setPath, hinfo, ExtTreeMap.getElem?_insert,
              ExtTreeMap.getElem?_erase, hid]
        | _ => rfl

end Paths

section Runs

/-- Everything that happens in a run. -/
def history (cfg : TrackerConfig) (inputs : List Input) : List Fact :=
  outputs step (start cfg) inputs

/-- The state after a run. -/
def after (cfg : TrackerConfig) (inputs : List Input) : Fleet := run step (start cfg) inputs

variable (cfg : TrackerConfig) (inputs : List Input)

/-- What holds in every run. -/
structure Filtered (log : List Fact) (s : Fleet) : Prop where
  ordered : ∀ id, Ordered id log s
  carried : Carried log s
  pathed : ∀ id, Pathed id log s

theorem filtered_start : Filtered [] (start cfg) := by
  refine ⟨fun id => ?_, ?_, fun id => ?_⟩
  · have hcur : (start cfg).watcher.currentOf id = none := by
      simp [start, Watcher.currentOf, RunMonitor.currentOf]
    have hhost : (start cfg).manager.host id = none := by
      simp [start, HostManager.start, HostManager.host]
    constructor
    · refine ⟨[], rfl, rfl, ?_⟩
      rw [hcur, hhost]
      exact .nil _
    · rw [hcur]
      exact .nil _
    · intro _ h
      cases h
    · exact List.nodup_nil
  · constructor
    · simp [start]
    · simp [start]
    · intro id g
      simp [start, emittedBy, appliedOf, droppedOf, onWay, waiting, inChannel]
    · simp
    · simp
  · constructor
    · simp [start, Watcher.currentOf, RunMonitor.currentOf, Watcher.pathOf]
    · simp

theorem filtered_run : Filtered (history cfg inputs) (after cfg inputs) :=
  history_invariant (fun log s i h => by
    have hm := s.step_moves i
    exact ⟨fun id => (h.ordered id).moves hm, h.carried.moves h.ordered hm,
      fun id => (h.pathed id).moves (h.ordered id) hm⟩) (filtered_start cfg) inputs

variable {cfg inputs} {log : List Fact} {s : Fleet} {id : String} {g : ℕ}

/-- Once the monitor took the removal of an incarnation, it applies nothing of it. -/
theorem Filtered.nothing_after (h : Filtered log s) {pre post : List Fact}
    (hlog : log = pre ++ .tookRemoved id (some g) :: post) : appliedOf post id g = [] := by
  refine List.filterMap_eq_nil_iff.mpr fun x hx => ?_
  cases x with
  | applied id' g' ev =>
    by_contra hsome
    obtain ⟨rfl, rfl⟩ : id' = id ∧ g' = g := by simpa using hsome
    obtain ⟨mid, post, rfl⟩ := List.append_of_mem hx
    obtain ⟨-, hgoes⟩ := h.carried.latest (pre ++ .tookRemoved id' (some g') :: mid) id' g' ev post
      (by simp [hlog])
    exact hgoes (by simp [taken])
  | _ => rfl

/-- Nothing of an incarnation was dropped before the monitor took its removal. -/
theorem Filtered.account (h : Filtered log s) (hg : .goes g ∉ taken log id) :
    emittedBy log id g = appliedOf log id g ++ s.onWay id g := by
  have hnone : droppedOf log id g = [] := by
    by_contra hd
    exact hg (h.carried.goes hd)
  rw [h.carried.account, hnone, List.append_nil]

/-- When the monitor takes a removal, what was emitted and not applied still waits. -/
theorem settled_when_removed {before later : List Input} {i : Input}
    (hin : inputs = before ++ i :: later)
    (htook : .tookRemoved id (some g) ∈ ((after cfg before).step i).2) :
    emittedBy (history cfg before) id g =
      appliedOf (history cfg inputs) id g ++ (after cfg before).onWay id g := by
  have hall := filtered_run cfg inputs
  have hbefore := filtered_run cfg before
  have hout := Moves.removal (step_moves _ i) htook
  have hlog : history cfg inputs = history cfg before ++ .tookRemoved id (some g) ::
      outputs step ((after cfg before).step i).1 later := by
    rw [history, hin, outputs_append, outputs_cons, ← after, hout]
    rfl
  have hnone : .goes g ∉ taken (history cfg before) id := by
    intro hmem
    have hnodup := (hall.ordered id).taken_nodup
    rw [hlog, taken_append] at hnodup
    exact (List.nodup_append.mp hnodup).2.2 _ hmem _ (by simp [taken]) rfl
  have happlied : appliedOf (history cfg inputs) id g = appliedOf (history cfg before) id g := by
    have hlater := hall.nothing_after hlog
    rw [hlog, appliedOf_append]
    simpa [appliedOf] using hlater
  rw [hbefore.account hnone, happlied]

end Runs

section Contract

/-- In every run: what is applied belongs to the incarnation that was requested last, and
nothing is applied of one whose removal was taken; what an incarnation emitted is applied in
order and once, except for what still waited when its removal was taken; the path of a host is
that of the last hello of its current incarnation. -/
theorem generation_filter (cfg : TrackerConfig) (inputs : List Input) :
    (∀ pre id g ev post, history cfg inputs = pre ++ .applied id g ev :: post →
      ∃ ts, requested pre id = ts ++ [.comes g] ∧ taken pre id = ts ++ [.comes g]) ∧
    (∀ pre id g post, history cfg inputs = pre ++ .tookRemoved id (some g) :: post →
      appliedOf post id g = []) ∧
    (∀ id g, .goes g ∉ taken (history cfg inputs) id →
      emittedBy (history cfg inputs) id g =
        appliedOf (history cfg inputs) id g ++ (after cfg inputs).onWay id g) ∧
    (∀ before i later id g, inputs = before ++ i :: later →
      .tookRemoved id (some g) ∈ ((after cfg before).step i).2 →
      emittedBy (history cfg before) id g =
        appliedOf (history cfg inputs) id g ++ (after cfg before).onWay id g) ∧
    ∀ id, (requested (history cfg inputs) id).Nodup ∧
      taken (history cfg inputs) id <+: requested (history cfg inputs) id ∧
      (∀ g, (after cfg inputs).watcher.currentOf id = some g ↔
        (taken (history cfg inputs) id).getLast? = some (.comes g)) ∧
      (after cfg inputs).watcher.pathOf id = match (after cfg inputs).watcher.currentOf id with
        | some g => Log.latest (namesPath id g) none (history cfg inputs)
        | none => none := by
  have h := filtered_run cfg inputs
  refine ⟨?_, ?_, ?_, ?_, ?_⟩
  · intro pre id g ev post hlog
    exact (h.carried.latest pre id g ev post hlog).1
  · intro pre id g post hlog
    exact h.nothing_after hlog
  · intro id g hg
    exact h.account hg
  · intro before i later id g hin htook
    exact settled_when_removed hin htook
  · intro id
    exact ⟨(h.ordered id).nodup, (h.ordered id).taken_ahead, fun g => (h.ordered id).past.last rfl,
      (h.pathed id).path⟩

end Contract

end Fleet

end MultiAi
