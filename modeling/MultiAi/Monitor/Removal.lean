import MultiAi.Monitor.Basic

/-! # Removing a host

`removeHost` forgets the view of a host but not its agents. A host is forgotten
exactly when no agent event of it was ever applied.
-/

namespace MultiAi

/-- One call on a monitor between removals. -/
inductive MonitorCall where
  | apply (id : String) (ev : HostEvent) (nowMs : ℕ)
  | acknowledge (key : AgentKey)

namespace MonitorCall

/-- The host a call is about. -/
def hostId : MonitorCall → String
  | apply id _ _ => id
  | acknowledge key => key.hostId

def step (m : Monitor) : MonitorCall → Monitor × List Update
  | apply id ev nowMs => m.apply id ev nowMs
  | acknowledge key => ((m.acknowledge key).1, (m.acknowledge key).2.toList)

end MonitorCall

namespace Removal

open Std Monitor

variable (cfg : TrackerConfig)

/-- The monitor after a sequence of calls. -/
def monitor (calls : List MonitorCall) : Monitor :=
  Machine.run MonitorCall.step (.new cfg) calls

/-- Later events of one host, each with its time. -/
def hostStep (id : String) (m : Monitor) (ev : HostEvent × ℕ) : Monitor × List Update :=
  m.apply id ev.1 ev.2

/-- After its removal no record of `id` is left, and later events of `id` bring the
same updates, up to their order within one event, and the same records as in a
monitor that never saw `id`. -/
def Forgets (calls : List MonitorCall) (id : String) : Prop :=
  let m := (monitor cfg calls).removeHost id
  (∀ r ∈ m.tracker.pending, r.key.hostId ≠ id) ∧
  (∀ r ∈ m.tracker.records, r.key.hostId ≠ id) ∧
  ∀ others : List MonitorCall, (∀ c ∈ others, c.hostId ≠ id) → ∀ evs : List (HostEvent × ℕ),
    let m' := monitor cfg others
    List.Forall₂ List.Perm (Machine.answers (hostStep id) m evs)
      (Machine.answers (hostStep id) m' evs) ∧
    ∀ key, key.hostId = id →
      (Machine.run (hostStep id) m evs).tracker.get key =
        (Machine.run (hostStep id) m' evs).tracker.get key

/-- Two monitors know the same about host `id`. -/
structure Agree (id : String) (m m' : Monitor) : Prop where
  cfg : m.tracker.cfg = m'.tracker.cfg
  records : ∀ key, key.hostId = id → m.tracker.get key = m'.tracker.get key
  view : m.host id = m'.host id

section Agree

variable {id : String} {m m' : Monitor} {nowMs : ℕ}

theorem mem_goneKeys_of_agree (h : Agree id m m') (session : Option String)
    (live : String → ℕ → Bool) (k : AgentKey)
    (hk : k ∈ (m.tracker.records.filter (isGone id session live)).map AgentRecord.key) :
    k.hostId = id ∧
      k ∈ (m'.tracker.records.filter (isGone id session live)).map AgentRecord.key := by
  obtain ⟨r, hr, hg⟩ := (mem_goneKeys _ k).mp hk
  have hid : k.hostId = id := by
    have hg' := hg
    simp only [isGone, Bool.and_eq_true, decide_eq_true_eq] at hg'
    rw [← m.tracker.keyed k r hr, hg'.1.1.1]
  exact ⟨hid, (mem_goneKeys _ k).mpr ⟨r, h.records k hid ▸ hr, hg⟩⟩

theorem Agree.symm (h : Agree id m m') : Agree id m' m where
  cfg := h.cfg.symm
  records key hk := (h.records key hk).symm
  view := h.view.symm

theorem agentsGone_perm (h : Agree id m m') (session : Option String)
    (live : String → ℕ → Bool) :
    (agentsGone m.tracker id session live nowMs).2.Perm
      (agentsGone m'.tracker id session live nowMs).2 := by
  rw [outputs_agentsGone, outputs_agentsGone]
  have hperm : ((m.tracker.records.filter (isGone id session live)).map AgentRecord.key).Perm
      ((m'.tracker.records.filter (isGone id session live)).map AgentRecord.key) := by
    refine (List.perm_ext_iff_of_nodup (nodup_goneKeys _ _) (nodup_goneKeys _ _)).mpr ?_
    intro k
    exact ⟨fun hk => (mem_goneKeys_of_agree h session live k hk).2,
      fun hk => (mem_goneKeys_of_agree h.symm session live k hk).2⟩
  have hcongr := List.filterMap_congr
    (l := (m.tracker.records.filter (isGone id session live)).map AgentRecord.key)
    (f := fun k => (m.tracker.get k).map fun r => Update.agent (r.gone nowMs))
    (g := fun k => (m'.tracker.get k).map fun r => Update.agent (r.gone nowMs)) fun k hk => by
      rw [h.records k (mem_goneKeys_of_agree h session live k hk).1]
  rw [hcongr]
  exact hperm.filterMap _

theorem agentEvent_eq (h : Agree id m m') (ev : AgentEvent) :
    (agentEvent m.tracker id ev).2 = (agentEvent m'.tracker id ev).2 := by
  have hr := h.records (.fromEvent id ev) rfl
  have he : m.tracker.entry (.fromEvent id ev) ev = m'.tracker.entry (.fromEvent id ev) ev := by
    rw [Tracker.entry, hr, Tracker.entry]
  simp only [agentEvent, Tracker.get_apply, Tracker.alert_apply, hr, he, h.cfg]

/-- One event of the host keeps the agreement and brings the same updates. -/
theorem Agree.step (h : Agree id m m') (ev : HostEvent × ℕ) :
    Agree id (hostStep id m ev).1 (hostStep id m' ev).1 ∧
      (hostStep id m ev).2.Perm (hostStep id m' ev).2 := by
  obtain ⟨ev, nowMs⟩ := ev
  have hview : m.view id = m'.view id := by rw [Monitor.view, h.view, Monitor.view]
  refine ⟨⟨?_, ?_, ?_⟩, ?_⟩
  · simp only [hostStep, cfg_apply, h.cfg]
  · intro key hk
    simp only [hostStep, Monitor.get_apply, h.cfg, h.records key hk]
  · simp only [hostStep, Monitor.host_apply, if_true, hview]
  · cases ev with
    | msg msg =>
      cases msg with
      | sessions sessions => exact (agentsGone_perm h none _).cons _
      | panes session panes => exact (agentsGone_perm h (some session) _).cons _
      | agentEvent ev => exact .of_eq (agentEvent_eq h ev)
      | metrics => exact .refl _
      | error => exact .refl _
      | hello => exact .refl _
      | heartbeat => exact .refl _
    | probe => simp only [hostStep, Monitor.apply, hview, List.Perm.refl]
    | hello => exact .refl _
    | hooks => exact .refl _
    | dropped => exact .refl _
    | term => simp only [hostStep, Monitor.apply, hview, List.Perm.refl]
    | notes => exact .refl _

end Agree

section Calls

variable {cfg : TrackerConfig} {id : String}

theorem monitor_concat (calls : List MonitorCall) (c : MonitorCall) :
    monitor cfg (calls ++ [c]) = (c.step (monitor cfg calls)).1 := Machine.run_concat ..

@[simp] theorem cfg_monitor (calls : List MonitorCall) : (monitor cfg calls).tracker.cfg = cfg := by
  induction calls using List.reverseRecOn with
  | nil => rfl
  | append_singleton calls c ih =>
    rw [monitor_concat]
    cases c with
    | apply id ev nowMs => simp only [MonitorCall.step, Monitor.cfg_apply, ih]
    | acknowledge key =>
      simp only [MonitorCall.step, Monitor.cfg_acknowledge, ih]

/-- The call applies an agent event of host `id`. -/
def IsAgentEvent (id : String) (c : MonitorCall) : Prop :=
  ∃ ev nowMs, c = .apply id (.msg (.agentEvent ev)) nowMs

/-- A call that applies no agent event of `id` adds no record of `id`. -/
theorem get_step_eq_none {m : Monitor} {c : MonitorCall} (hc : ¬ IsAgentEvent id c)
    {key : AgentKey} (hk : key.hostId = id) (h : m.tracker.get key = none) :
    (c.step m).1.tracker.get key = none := by
  cases c with
  | acknowledge k =>
    simp only [MonitorCall.step, Monitor.get_acknowledge, h, Option.map_none, ite_self]
  | apply id' ev nowMs =>
    simp only [MonitorCall.step, Monitor.get_apply, h]
    cases ev with
    | msg msg =>
      cases msg with
      | agentEvent ev =>
        have hne : AgentKey.fromEvent id' ev ≠ key := by
          rintro rfl
          exact hc ⟨ev, nowMs, hk ▸ rfl⟩
        simp only [onEvent, onMsg, if_neg hne]
      | _ => rfl
    | _ => rfl

/-- No call drops a record. -/
theorem get_step_isSome {m : Monitor} {c : MonitorCall} {key : AgentKey}
    (h : (m.tracker.get key).isSome) : ((c.step m).1.tracker.get key).isSome := by
  obtain ⟨r, hr⟩ := Option.isSome_iff_exists.mp h
  cases c with
  | acknowledge k =>
    simp only [MonitorCall.step, Monitor.get_acknowledge, hr]
    split_ifs <;> rfl
  | apply id' ev nowMs =>
    simp only [MonitorCall.step, Monitor.get_apply, hr]
    cases ev with
    | msg msg =>
      cases msg with
      | agentEvent ev =>
        simp only [onEvent, onMsg]
        split_ifs <;> rfl
      | _ => rfl
    | _ => rfl

theorem get_monitor_eq_none {calls : List MonitorCall} (hcalls : ∀ c ∈ calls, ¬ IsAgentEvent id c)
    {key : AgentKey} (hk : key.hostId = id) : (monitor cfg calls).tracker.get key = none :=
  Machine.run_invariant (P := fun m : Monitor => m.tracker.get key = none)
    (fun _ _ h hc => get_step_eq_none hc hk h) (Tracker.get_new cfg key) hcalls

theorem get_monitor_isSome {calls : List MonitorCall} {ev : AgentEvent} {nowMs : ℕ}
    (h : .apply id (.msg (.agentEvent ev)) nowMs ∈ calls) :
    ((monitor cfg calls).tracker.get (.fromEvent id ev)).isSome := by
  obtain ⟨pre, post, rfl⟩ := List.append_of_mem h
  rw [monitor, Machine.run_append, Machine.run_cons]
  refine Machine.run_preserves (P := fun m : Monitor => (m.tracker.get (.fromEvent id ev)).isSome)
    (fun _ _ h => get_step_isSome h) ?_ _
  simp only [MonitorCall.step, Monitor.get_apply, onEvent, onMsg, if_true, Option.isSome_some]

/-- Calls about other hosts leave no view of `id`. -/
theorem host_monitor_eq_none {calls : List MonitorCall} (hcalls : ∀ c ∈ calls, c.hostId ≠ id) :
    (monitor cfg calls).host id = none := by
  refine Machine.run_invariant (P := fun m : Monitor => m.host id = none) (Q := (·.hostId ≠ id))
    ?_ ?_ hcalls
  · intro m c h hc
    cases c with
    | apply id' ev nowMs =>
      exact (Monitor.host_apply ..).trans ((if_neg hc).trans h)
    | acknowledge key => exact (Monitor.host_acknowledge ..).trans h
  · simp only [Monitor.host, Monitor.new, ExtTreeMap.getElem?_empty]

/-- Removing a host forgets it exactly when no agent event of it was ever applied. -/
theorem forgets_iff (cfg : TrackerConfig) (calls : List MonitorCall) (id : String) :
    Forgets cfg calls id ↔
      ∀ ev nowMs, .apply id (.msg (.agentEvent ev)) nowMs ∉ calls := by
  constructor
  · rintro ⟨-, hrecords, -⟩ ev nowMs hmem
    obtain ⟨r, hr⟩ := Option.isSome_iff_exists.mp (get_monitor_isSome hmem)
    have hk := (monitor cfg calls).tracker.keyed _ _ hr
    exact hrecords r (Tracker.mem_records.mpr (hk ▸ hr)) (hk ▸ rfl)
  · intro hnone
    have hcalls : ∀ c ∈ calls, ¬ IsAgentEvent id c := by
      rintro c hc ⟨ev, nowMs, rfl⟩
      exact hnone ev nowMs hc
    have hrecords : ∀ r ∈ (monitor cfg calls).tracker.records, r.key.hostId ≠ id := by
      intro r hr hid
      rw [Tracker.mem_records, get_monitor_eq_none hcalls hid] at hr
      cases hr
    refine ⟨fun r hr => hrecords r ?_, hrecords, fun others hothers evs => ?_⟩
    · exact Tracker.mem_records.mpr (Tracker.mem_pending.mp hr).1
    · have hagree : Agree id ((monitor cfg calls).removeHost id) (monitor cfg others) := by
        have hothers' : ∀ c ∈ others, ¬ IsAgentEvent id c := by
          rintro c hc ⟨ev, nowMs, rfl⟩
          exact hothers _ hc rfl
        refine ⟨?_, fun key hk => ?_, ?_⟩
        · simp only [removeHost, cfg_monitor]
        · exact (get_monitor_eq_none hcalls hk).trans (get_monitor_eq_none hothers' hk).symm
        · rw [host_monitor_eq_none hothers]
          simp only [removeHost, Monitor.host, ExtTreeMap.getElem?_erase_self]
      obtain ⟨hend, hanswers⟩ := Machine.answers_related (R := Agree id) (E := List.Perm)
        (fun _ _ ev h => h.step ev) hagree evs
      exact ⟨hanswers, hend.records⟩

/-- After its removal a host's agent is still tracked. -/
theorem not_forgets_done :
    ¬ Forgets .default [.apply "host" (.msg (.agentEvent
      ⟨⟨"work", 1⟩, "claude", .hook, .done, none, 0, some 1⟩)) 0] "host" := by
  rintro ⟨-, hrecords, -⟩
  exact absurd hrecords (by decide)

end Calls

end Removal

end MultiAi
