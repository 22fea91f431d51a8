import MultiAi.Library.Unwinding
import MultiAi.Monitor.Removal
import Mathlib.Data.List.Perm.Basic

/-! # Isolation of hosts

The tracker is shared by all hosts, and a list of sessions or panes scans every record of it.
What the monitor knows and tells of one host depends on the calls about that host only.
-/

namespace MultiAi

open Std Monitor OrderedMap

/-- The host an update is about. -/
def Update.hostId : Update → String
  | .host id _ _ _ => id
  | .hello id _ => id
  | .hooks id _ => id
  | .sessions id _ => id
  | .panes id _ _ => id
  | .agent r => r.key.hostId
  | .alert a => a.key.hostId
  | .metrics id _ => id
  | .probeError id _ _ => id
  | .notes id _ => id
  | .dropped id _ => id

/-- The call lists sessions or panes, and so may find agents gone. -/
def MonitorCall.lists : MonitorCall → Bool
  | .apply _ (.msg (.sessions _)) _ => true
  | .apply _ (.msg (.panes _ _)) _ => true
  | _ => false

namespace Isolation

open Removal Unwinding

def goneKeys (t : Tracker) (id : String) (session : Option String) (live : String → ℕ → Bool) :
    List AgentKey := (t.records.filter (isGone id session live)).map AgentRecord.key

/-- What a call may do: the source walks the records in the order of a hash map, so the agents
that are gone come in any order. -/
inductive Takes (m : Monitor) : MonitorCall → Monitor → List Update → Prop
  | sessions {id : String} {sessions : List SessionInfo} {nowMs : ℕ} {keys : List AgentKey} :
      keys.Perm (goneKeys m.tracker id none fun s _ => sessionLive sessions s) →
      Takes m (.apply id (.msg (.sessions sessions)) nowMs)
        { (m.apply id (.msg (.sessions sessions)) nowMs).1 with
          tracker := Machine.run (markGone nowMs) m.tracker keys }
        (.sessions id sessions :: Machine.outputs (markGone nowMs) m.tracker keys)
  | panes {id session : String} {panes : List PaneInfo} {nowMs : ℕ} {keys : List AgentKey} :
      keys.Perm (goneKeys m.tracker id (some session) fun _ p => paneLive panes p) →
      Takes m (.apply id (.msg (.panes session panes)) nowMs)
        { (m.apply id (.msg (.panes session panes)) nowMs).1 with
          tracker := Machine.run (markGone nowMs) m.tracker keys }
        (.panes id session panes :: Machine.outputs (markGone nowMs) m.tracker keys)
  | steps {c : MonitorCall} : c.lists = false → Takes m c (c.step m).1 (c.step m).2

/-- The same updates, up to the order of the agents that one list finds gone. -/
def Alike (c : MonitorCall) (out out' : List Update) : Prop :=
  if c.lists then
    ∃ (u : Update) (gone gone' : List AgentRecord), gone.Perm gone' ∧
      out = u :: gone.map .agent ∧ out' = u :: gone'.map .agent
  else out = out'

/-- Two runs are the same for a host. -/
structure Same (id : String) (h : List (MonitorCall × List Update)) (m : Monitor)
    (h' : List (MonitorCall × List Update)) (m' : Monitor) : Prop where
  view : m.host id = m'.host id
  records : ∀ key, key.hostId = id → m.tracker.get key = m'.tracker.get key
  updates : List.Forall₂ (fun x x' => x.1 = x'.1 ∧ Alike x.1 x.2 x'.2)
    (seen MonitorCall.hostId id h) (seen MonitorCall.hostId id h')

/-- The calls about every host come in the order in which the host has them. -/
def Interleaves (inputs : String → List MonitorCall) (calls : List MonitorCall) : Prop :=
  ∀ id, (calls.filter fun c => c.hostId = id) = inputs id

section Walks

variable {t : Tracker} {keys keys' : List AgentKey} {nowMs : ℕ}

/-- The records after a walk do not depend on its order. -/
theorem get_walk (hp : keys.Perm keys') (hn : keys'.Nodup) (k : AgentKey) :
    (Machine.run (markGone nowMs) t keys).get k = (Machine.run (markGone nowMs) t keys').get k := by
  simp only [Tracker.get, agents_run_markGone]
  by_cases h : k ∈ keys'
  · rw [getElem?_modifyAll_of_mem _ _ (hp.nodup_iff.mpr hn) (hp.mem_iff.mpr h),
      getElem?_modifyAll_of_mem _ _ hn h]
  · rw [getElem?_modifyAll_of_not_mem _ _ (hp.mem_iff.not.mpr h),
      getElem?_modifyAll_of_not_mem _ _ h]

/-- The records that a walk tells of. -/
def told (t : Tracker) (keys : List AgentKey) (nowMs : ℕ) : List AgentRecord :=
  keys.filterMap fun k => (t.get k).map (.gone nowMs)

theorem outputs_walk (hn : keys.Nodup) :
    Machine.outputs (markGone nowMs) t keys = (told t keys nowMs).map .agent := by
  rw [outputs_markGone t hn, told, List.map_filterMap]
  simp only [Option.map_map, Function.comp_def]

end Walks

section Steps

/-- An event of another host spares the records of this one. -/
theorem onEvent_other (t : Tracker) {id id' : String} {cfg : TrackerConfig} {key : AgentKey}
    {ev : HostEvent} {nowMs : ℕ} (hne : id' ≠ id) (hk : key.hostId = id) :
    onEvent cfg key id' ev nowMs (t.get key) = t.get key := by
  have hspared : ∀ session live, ((t.get key).map fun r =>
      if isGone id' session live r then r.gone nowMs else r) = t.get key := by
    intro session live
    cases hr : t.get key with
    | none => rfl
    | some r =>
      have hid : r.key.hostId ≠ id' := by
        rw [t.keyed key r hr, hk]
        exact hne.symm
      simp [isGone, hid]
  cases ev with
  | msg msg =>
    cases msg with
    | sessions => exact hspared ..
    | panes => exact hspared ..
    | agentEvent ev =>
      refine if_neg fun heq => hne ?_
      rw [← hk, ← heq]
      rfl
    | _ => rfl
  | _ => rfl

variable {id : String} {m m' m₁ m₁' : Monitor} {c : MonitorCall} {out out' out'' : List Update}

theorem Alike.refl_of_lists (h : c.lists = false) : Alike c out out := by
  rw [Alike, h]
  rfl

theorem Alike.trans (h : Alike c out out') (h' : Alike c out' out'') : Alike c out out'' := by
  unfold Alike at *
  split_ifs at *
  · obtain ⟨u, gone, gone₁, hp, rfl, rfl⟩ := h
    obtain ⟨u', gone₂, gone', hp', heq, rfl⟩ := h'
    obtain ⟨rfl, hmap⟩ := List.cons.inj heq
    obtain rfl := List.map_injective_iff.mpr (fun a b hab => Update.agent.inj hab) hmap
    exact ⟨u, gone, gone', hp.trans hp', rfl, rfl⟩
  · exact h.trans h'

theorem Alike.symm (h : Alike c out out') : Alike c out' out := by
  unfold Alike at *
  split_ifs at *
  · obtain ⟨u, gone, gone', hp, hout, hout'⟩ := h
    exact ⟨u, gone', gone, hp.symm, hout', hout⟩
  · exact h.symm

theorem alike_walk {t : Tracker} {keys keys' : List AgentKey} {nowMs : ℕ} {u : Update}
    (hl : c.lists = true) (hp : keys.Perm keys') (hn : keys'.Nodup) :
    Alike c (u :: Machine.outputs (markGone nowMs) t keys)
      (u :: Machine.outputs (markGone nowMs) t keys') := by
  rw [Alike, if_pos hl, outputs_walk hn, outputs_walk (hp.nodup_iff.mpr hn)]
  exact ⟨u, _, _, hp.filterMap _, rfl, rfl⟩

theorem agree_trans {m₂ : Monitor} (h : Agree id m m₁) (h' : Agree id m₁ m₂) : Agree id m m₂ where
  cfg := h.cfg.trans h'.cfg
  records key hk := (h.records key hk).trans (h'.records key hk)
  view := h.view.trans h'.view

/-- What a call may do is what it does in key order, up to the order of its updates. -/
theorem Takes.step (h : Takes m c m₁ out) (id : String) :
    Agree id m₁ (c.step m).1 ∧ Alike c out (c.step m).2 := by
  cases h with
  | @sessions id' sessions nowMs keys hp =>
    have hn := nodup_goneKeys m.tracker (isGone id' none fun s _ => sessionLive sessions s)
    refine ⟨⟨?_, fun key _ => get_walk hp hn key, rfl⟩, alike_walk rfl hp hn⟩
    exact (cfg_run_markGone ..).trans (cfg_apply ..).symm
  | @panes id' session panes nowMs keys hp =>
    have hn := nodup_goneKeys m.tracker (isGone id' (some session) fun _ p => paneLive panes p)
    refine ⟨⟨?_, fun key _ => get_walk hp hn key, rfl⟩, alike_walk rfl hp hn⟩
    exact (cfg_run_markGone ..).trans (cfg_apply ..).symm
  | steps hl => exact ⟨⟨rfl, fun _ _ => rfl, rfl⟩, .refl_of_lists hl⟩

theorem acknowledge_update (m : Monitor) (key : AgentKey) :
    (m.acknowledge key).2 = (m.tracker.get key).bind fun was =>
      if was.acknowledged then none else some (.agent was.acknowledge) := by
  unfold Monitor.acknowledge
  cases hr : m.tracker.get key with
  | none => rfl
  | some was => simp [Tracker.get_acknowledge, hr]

theorem alike_agentsGone (h : Agree id m m') (hl : c.lists = true) (u : Update)
    (session : Option String) (live : String → ℕ → Bool) (nowMs : ℕ) :
    Alike c (u :: (agentsGone m.tracker id session live nowMs).2)
      (u :: (agentsGone m'.tracker id session live nowMs).2) := by
  have hperm : (agentsGone m.tracker id session live nowMs).2.Perm
      (agentsGone m'.tracker id session live nowMs).2 := agentsGone_perm h session live
  have hwalk (m : Monitor) : (agentsGone m.tracker id session live nowMs).2 =
      (told m.tracker (goneKeys m.tracker id session live) nowMs).map .agent :=
    outputs_walk (nodup_goneKeys ..)
  rw [hwalk m, hwalk m'] at hperm
  rw [Alike, if_pos hl, hwalk m, hwalk m']
  have hinj : Function.Injective Update.agent := fun a b hab => Update.agent.inj hab
  exact ⟨u, _, _, (List.map_perm_map_iff hinj).mp hperm, rfl, rfl⟩

/-- A call about the host keeps the agreement and brings the same updates. -/
theorem agree_own (h : Agree id m m') (hc : c.hostId = id) :
    Agree id (c.step m).1 (c.step m').1 ∧ Alike c (c.step m).2 (c.step m').2 := by
  cases c with
  | apply id' ev nowMs =>
    obtain rfl : id' = id := hc
    refine ⟨(h.step (ev, nowMs)).1, ?_⟩
    have hview : m.view id' = m'.view id' := by rw [Monitor.view, h.view, Monitor.view]
    cases ev with
    | msg msg =>
      cases msg with
      | sessions => exact alike_agentsGone h rfl _ none _ _
      | panes => exact alike_agentsGone h rfl _ _ _ _
      | agentEvent ev => exact agentEvent_eq h ev
      | _ => exact .refl_of_lists rfl
    | probe state =>
      have heq : (m.apply id' (.probe state) nowMs).2 = (m'.apply id' (.probe state) nowMs).2 := by
        simp only [Monitor.apply, hview]
      exact heq
    | term state =>
      have heq : (m.apply id' (.term state) nowMs).2 = (m'.apply id' (.term state) nowMs).2 := by
        simp only [Monitor.apply, hview]
      exact heq
    | _ => exact .refl_of_lists rfl
  | acknowledge key =>
    have hr := h.records key hc
    refine ⟨⟨?_, fun key' hk => ?_, ?_⟩, ?_⟩
    · simp only [MonitorCall.step, cfg_acknowledge, h.cfg]
    · simp only [MonitorCall.step, Monitor.get_acknowledge, h.records key' hk]
    · simp only [MonitorCall.step, host_acknowledge, h.view]
    · change (m.acknowledge key).2.toList = (m'.acknowledge key).2.toList
      rw [acknowledge_update, acknowledge_update, hr]

/-- A call about another host changes nothing of this one. -/
theorem agree_other (hc : c.hostId ≠ id) : Agree id (c.step m).1 m := by
  cases c with
  | apply id' ev nowMs =>
    have hne : id' ≠ id := hc
    refine ⟨cfg_apply .., fun key hk => ?_, (host_apply ..).trans (if_neg hne)⟩
    exact (Monitor.get_apply ..).trans (onEvent_other m.tracker hne hk)
  | acknowledge key =>
    have hne : key.hostId ≠ id := hc
    refine ⟨cfg_acknowledge .., fun key' hk => ?_, host_acknowledge ..⟩
    exact (Monitor.get_acknowledge ..).trans (if_neg fun heq => hne (by rw [heq, hk]))

theorem hostId_agentEvent (t : Tracker) (id : String) (ev : AgentEvent) :
    ∀ u ∈ (agentEvent t id ev).2, u.hostId = id := by
  intro u hu
  rcases List.mem_append.mp hu with hu | hu
  · obtain ⟨r, hr, rfl⟩ := List.mem_map.mp hu
    have hget := Option.eq_some_of_filter_eq_some (Option.mem_toList.mp hr)
    exact congrArg AgentKey.hostId ((t.apply id ev).1.keyed _ r hget)
  · obtain ⟨a, ha, rfl⟩ := List.mem_map.mp hu
    have halert := (t.alert_apply id ev).symm.trans (Option.mem_toList.mp ha)
    obtain ⟨-, rfl⟩ := AgentRecord.enters_of_alert halert
    exact congrArg AgentKey.hostId (t.entry_key ..)

/-- Every update of a call is about its host. -/
theorem hostId_step (m : Monitor) (c : MonitorCall) : ∀ u ∈ (c.step m).2, u.hostId = c.hostId := by
  have hgone : ∀ id session live nowMs, ∀ u ∈ (agentsGone m.tracker id session live nowMs).2,
      u.hostId = id := by
    intro id session live nowMs u hu
    rw [outputs_agentsGone] at hu
    obtain ⟨k, hk, hku⟩ := List.mem_filterMap.mp hu
    obtain ⟨r, hr, rfl⟩ := Option.map_eq_some_iff.mp hku
    obtain ⟨r', hr', hg⟩ := (mem_goneKeys _ k).mp hk
    cases hr.symm.trans hr'
    simp only [isGone, Bool.and_eq_true, decide_eq_true_eq] at hg
    exact hg.1.1.1
  cases c with
  | acknowledge key =>
    intro u hu
    have hsome : (m.acknowledge key).2 = some u := Option.mem_toList.mp hu
    rw [acknowledge_update] at hsome
    obtain ⟨was, hr, hwas⟩ := Option.bind_eq_some_iff.mp hsome
    split_ifs at hwas
    cases hwas
    exact congrArg AgentKey.hostId (m.tracker.keyed key was hr)
  | apply id ev nowMs =>
    cases ev with
    | msg msg =>
      cases msg with
      | sessions => exact List.forall_mem_cons.mpr ⟨rfl, hgone _ _ _ _⟩
      | panes => exact List.forall_mem_cons.mpr ⟨rfl, hgone _ _ _ _⟩
      | agentEvent ev => exact hostId_agentEvent _ _ _
      | metrics => simp [MonitorCall.step, Monitor.apply, applyMsg, Update.hostId, MonitorCall.hostId]
      | error => simp [MonitorCall.step, Monitor.apply, applyMsg, Update.hostId, MonitorCall.hostId]
      | hello => exact fun u hu => absurd hu List.not_mem_nil
      | heartbeat => exact fun u hu => absurd hu List.not_mem_nil
    | _ => simp [MonitorCall.step, Monitor.apply, hostUpdate, Update.hostId, MonitorCall.hostId]

theorem unwinds : Unwinds Takes MonitorCall.hostId id (Agree id) Alike where
  symm h := h.symm
  own h hc ht ht' := by
    obtain ⟨hend, hout⟩ := ht.step id
    obtain ⟨hend', hout'⟩ := ht'.step id
    obtain ⟨hnext, halike⟩ := agree_own h hc
    exact ⟨agree_trans hend (agree_trans hnext hend'.symm), hout.trans (halike.trans hout'.symm)⟩
  other h hc ht := agree_trans (ht.step id).1 (agree_trans (agree_other hc) h)

end Steps

section Runs

variable (cfg : TrackerConfig) {inputs : String → List MonitorCall} {id : String}
  {h h' : List (MonitorCall × List Update)} {m m' : Monitor}

theorem same_of_runs (hr : Runs Takes (.new cfg) h m) (hr' : Runs Takes (.new cfg) h' m')
    (hin : ((h.map Prod.fst).filter fun c => c.hostId = id) =
      (h'.map Prod.fst).filter fun c => c.hostId = id) : Same id h m h' m' := by
  have hagree : Agree id (.new cfg) (.new cfg) := ⟨rfl, fun _ _ => rfl, rfl⟩
  obtain ⟨hend, hupdates⟩ := unwinds.runs hagree hr hr' (by rw [map_seen, map_seen, hin])
  exact ⟨hend.view, hend.records, hupdates⟩

theorem hostId_runs (hr : Runs Takes m h m') : ∀ x ∈ h, ∀ u ∈ x.2, u.hostId = x.1.hostId := by
  induction hr with
  | nil => exact fun x hx => absurd hx List.not_mem_nil
  | @cons s₀ s₁ s₂ c out h ht _ ih =>
    refine List.forall_mem_cons.mpr ⟨?_, ih⟩
    intro u hu
    have hstep := hostId_step s₀ c
    have halike := (ht.step "").2
    unfold Alike at halike
    split_ifs at halike
    · obtain ⟨u', gone, gone', hp, hout, hout'⟩ := halike
      have hperm : out.Perm (c.step s₀).2 := by
        rw [hout, hout']
        exact (hp.map _).cons _
      exact hstep u (hperm.mem_iff.mp hu)
    · exact hstep u (halike ▸ hu)

/-- The runs of the monitor in which the records come in key order. -/
theorem runs_step (m : Monitor) (calls : List MonitorCall) :
    Runs Takes m (calls.zip (Machine.answers MonitorCall.step m calls))
      (Machine.run MonitorCall.step m calls) := by
  induction calls generalizing m with
  | nil => exact .nil m
  | cons c calls ih =>
    refine .cons ?_ (ih _)
    by_cases hl : c.lists = false
    · exact .steps hl
    · cases c with
      | apply id ev nowMs =>
        cases ev with
        | msg msg =>
          cases msg with
          | sessions => exact .sessions (.refl _)
          | panes => exact .panes (.refl _)
          | _ => exact absurd rfl hl
        | _ => exact absurd rfl hl
      | acknowledge => exact absurd rfl hl

/-- For every host, what the monitor knows and tells is the same in every interleaving of what
the hosts do, and the same as in a monitor that sees this host only. -/
theorem hosts_isolated (hr : Runs Takes (.new cfg) h m) (hr' : Runs Takes (.new cfg) h' m')
    (hi : Interleaves inputs (h.map Prod.fst)) (hi' : Interleaves inputs (h'.map Prod.fst))
    (id : String) :
    Same id h m h' m' ∧
      (∀ h₀ m₀, Runs Takes (.new cfg) h₀ m₀ → h₀.map Prod.fst = inputs id → Same id h m h₀ m₀) ∧
      ∀ x ∈ h, ∀ u ∈ x.2, u.hostId = x.1.hostId := by
  refine ⟨same_of_runs cfg hr hr' ((hi id).trans (hi' id).symm), ?_, hostId_runs hr⟩
  intro h₀ m₀ hr₀ halone
  refine same_of_runs cfg hr hr₀ ?_
  rw [halone, ← hi id]
  simp

/-- Two hosts with an agent in a pane of the same name. -/
theorem hosts_isolated_two :
    let ev : AgentEvent := ⟨⟨"main", 0⟩, "claude", .hook, .needsInput, none, 5, none⟩
    let a := MonitorCall.apply "a" (.msg (.agentEvent ev)) 1
    let b := MonitorCall.apply "b" (.msg (.sessions [])) 2
    let h := [a, b].zip (Machine.answers MonitorCall.step (.new .default) [a, b])
    let h' := [b, a].zip (Machine.answers MonitorCall.step (.new .default) [b, a])
    Same "a" h (Machine.run MonitorCall.step (.new .default) [a, b]) h'
      (Machine.run MonitorCall.step (.new .default) [b, a]) := by
  intro ev a b h h'
  have hi : Interleaves (fun id => [a, b].filter fun c => c.hostId = id) (h.map Prod.fst) :=
    fun id => rfl
  have hi' : Interleaves (fun id => [a, b].filter fun c => c.hostId = id) (h'.map Prod.fst) := by
    intro id
    by_cases ha : "a" = id
    · subst ha
      rfl
    · by_cases hb : "b" = id
      · subst hb
        rfl
      · have hpa : decide (a.hostId = id) = false := decide_eq_false ha
        have hpb : decide (b.hostId = id) = false := decide_eq_false hb
        change [b, a].filter (fun c => c.hostId = id) = [a, b].filter fun c => c.hostId = id
        simp only [List.filter_cons, List.filter_nil, hpa, hpb, Bool.false_eq_true, if_false]
  exact (hosts_isolated .default (runs_step _ [a, b]) (runs_step _ [b, a]) hi hi' "a").1

end Runs

end Isolation

end MultiAi
