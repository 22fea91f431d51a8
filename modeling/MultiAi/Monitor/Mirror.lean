import MultiAi.Library.Log
import MultiAi.Monitor.Isolation

/-! # A mirror of the agents

The updates that the monitor returns are all that a user interface sees of the agents. The last
record told of each agent shows what the tracker knows of it.
-/

namespace MultiAi

open Std Monitor

namespace Mirror

open Removal Isolation Unwinding

/-- The record that an update tells of an agent. -/
def tells (key : AgentKey) : Update → Option (Option AgentRecord)
  | .agent r => if r.key = key then some (some r) else none
  | _ => none

/-- The last record told of an agent. -/
def mirror (out : List Update) (key : AgentKey) : Option AgentRecord :=
  Log.latest (tells key) none out

/-- What is shown of a record. -/
def shown (r : AgentRecord) : String × AgentState × Option String × Bool × ℕ :=
  (r.agent, r.state, r.message, r.acknowledged, r.sinceMs)

/-- Every update of a run. -/
def updates (h : List (MonitorCall × List Update)) : List Update := h.flatMap Prod.snd

/-- An alert comes right after the record of its agent. -/
def AlertFollows (out : List Update) : Prop :=
  ∀ pre a post, out = pre ++ .alert a :: post → ∃ pre' r, pre = pre' ++ [.agent r] ∧
    r.key = a.key ∧ r.state = a.state ∧ r.acknowledged = false

/-- What the updates of a call say of the records before and after it. -/
structure Tells (t t' : Tracker) (out : List Update) : Prop where
  record : ∀ r, .agent r ∈ out →
    t'.get r.key = some r ∧ (t.get r.key).map shown ≠ some (shown r)
  others : ∀ key, (∀ r, .agent r ∈ out → r.key ≠ key) →
    (t'.get key).map shown = (t.get key).map shown
  alerts : AlertFollows out

section Steps

variable {t t' : Tracker} {out : List Update} {id : String} {nowMs : ℕ}

theorem alertFollows_of_silent (h : ∀ a, .alert a ∉ out) : AlertFollows out := by
  intro pre a post heq
  exact absurd (heq ▸ by simp) (h a)

/-- A call that tells no agent anything. -/
theorem Tells.silent (hsame : ∀ key, (t'.get key).map shown = (t.get key).map shown)
    (hagent : ∀ r, .agent r ∉ out) (halert : ∀ a, .alert a ∉ out) : Tells t t' out where
  record r hr := absurd hr (hagent r)
  others key _ := hsame key
  alerts := alertFollows_of_silent halert

/-- The agents that a list finds gone. -/
theorem Tells.walk {session : Option String} {live : String → ℕ → Bool} {keys : List AgentKey}
    (hp : keys.Perm (goneKeys t id session live)) {u : Update} (hu : ∀ r, u ≠ .agent r)
    (hu' : ∀ a, u ≠ .alert a) : Tells t (Machine.run (markGone nowMs) t keys)
      (u :: Machine.outputs (markGone nowMs) t keys) := by
  have hn : (goneKeys t id session live).Nodup := nodup_goneKeys ..
  have hget (key : AgentKey) : (Machine.run (markGone nowMs) t keys).get key =
      (t.get key).map fun r => if isGone id session live r then r.gone nowMs else r :=
    (get_walk hp hn key).trans (get_agentsGone key)
  have hout : Machine.outputs (markGone nowMs) t keys = (told t keys nowMs).map .agent :=
    outputs_walk (hp.nodup_iff.mpr hn)
  have hmem : ∀ r', r' ∈ told t keys nowMs ↔
      ∃ r, t.get r.key = some r ∧ isGone id session live r ∧ r' = r.gone nowMs := by
    intro r'
    rw [told, List.mem_filterMap]
    constructor
    · rintro ⟨key, hk, hmap⟩
      obtain ⟨r, hr, rfl⟩ := Option.map_eq_some_iff.mp hmap
      obtain ⟨r₁, hr₁, hg⟩ := (mem_goneKeys _ key).mp (hp.mem_iff.mp hk)
      cases hr.symm.trans hr₁
      exact ⟨r, (t.keyed key r hr).symm ▸ hr, hg, rfl⟩
    · rintro ⟨r, hr, hg, rfl⟩
      refine ⟨r.key, hp.mem_iff.mpr ((mem_goneKeys _ r.key).mpr ⟨r, hr, hg⟩), ?_⟩
      rw [hr, Option.map_some]
  constructor
  · intro r' hr'
    rw [hout] at hr'
    rcases List.mem_cons.mp hr' with heq | hr'
    · exact absurd heq.symm (hu r')
    · obtain ⟨r₁, hr₁, heq⟩ := List.mem_map.mp hr'
      cases heq
      obtain ⟨r, hr, hg, rfl⟩ := (hmem r').mp hr₁
      refine ⟨by rw [AgentRecord.gone_key, hget, hr, Option.map_some, if_pos hg], ?_⟩
      rw [AgentRecord.gone_key, hr, Option.map_some]
      intro heq
      have hstate : r.state = .exited := congrArg (fun x => x.2.1) (Option.some.inj heq)
      simp [isGone, hstate] at hg
  · intro key hkey
    rw [hget]
    cases hr : t.get key with
    | none => rfl
    | some r =>
      obtain rfl := t.keyed key r hr
      have hg : ¬isGone id session live r := by
        intro hg
        refine hkey (r.gone nowMs) (List.mem_cons_of_mem _ ?_) rfl
        rw [hout]
        exact List.mem_map_of_mem ((hmem _).mpr ⟨r, hr, hg, rfl⟩)
      show some (shown (if isGone id session live r then r.gone nowMs else r)) = some (shown r)
      rw [if_neg hg]
  · refine alertFollows_of_silent fun a ha => ?_
    rw [hout] at ha
    rcases List.mem_cons.mp ha with heq | ha
    · exact hu' a heq.symm
    · obtain ⟨r, -, heq⟩ := List.mem_map.mp ha
      cases heq

/-- An event shows nothing new of a record, or gives it another state, which an alert tells. -/
theorem shown_apply (r : AgentRecord) (cfg : TrackerConfig) (ev : AgentEvent) :
    shown (r.apply cfg ev).1 = shown r ∧ (r.apply cfg ev).2 = none ∨
      (r.apply cfg ev).1.state ≠ r.state ∧ ∀ a, (r.apply cfg ev).2 = some a →
        a.key = r.key ∧ a.state = (r.apply cfg ev).1.state ∧
          (r.apply cfg ev).1.acknowledged = false := by
  cases hacc : r.accept cfg ev with
  | none =>
    rw [AgentRecord.apply_of_ignored hacc]
    exact Or.inl ⟨rfl, rfl⟩
  | some r' =>
    obtain ⟨hkey, hagent, hstate, hmessage, hack, hsince, -⟩ := AgentRecord.accept_frame hacc
    rw [AgentRecord.apply_of_accept hacc]
    by_cases hs : r'.state = ev.state
    · rw [AgentRecord.enter_same hs, shown, shown, hagent, hstate, hmessage, hack, hsince]
      exact Or.inl ⟨rfl, rfl⟩
    · refine Or.inr ⟨?_, fun a ha => ?_⟩
      · rw [AgentRecord.enter_state, ← hstate]
        exact Ne.symm hs
      · rw [AgentRecord.enter, if_neg hs] at ha ⊢
        split_ifs at ha ⊢ with halert
        cases ha
        exact ⟨hkey, rfl, by simpa [AgentRecord.moved] using halert⟩

/-- A record is told if it is a new one or shows something new. -/
theorem agentEvent_out (t : Tracker) (id : String) (ev : AgentEvent) :
    let r := t.entry (.fromEvent id ev) ev
    (agentEvent t id ev).2 =
      (if (t.get (.fromEvent id ev)).map (fun r => (r.state, r.acknowledged)) =
          some ((r.apply t.cfg ev).1.state, (r.apply t.cfg ev).1.acknowledged) then []
        else [.agent (r.apply t.cfg ev).1]) ++ (r.apply t.cfg ev).2.toList.map .alert := by
  intro r
  have hget : (t.apply id ev).1.get (.fromEvent id ev) = some (r.apply t.cfg ev).1 := by
    rw [Tracker.get_apply, if_pos rfl]
  simp only [agentEvent, hget, Tracker.alert_apply]
  congr 1
  split_ifs with h
  · simp [Option.filter, h]
  · simp [Option.filter, h]

theorem Tells.event (t : Tracker) (id : String) (ev : AgentEvent) :
    Tells t (agentEvent t id ev).1 (agentEvent t id ev).2 := by
  have hout := agentEvent_out t id ev
  simp only at hout
  set key := AgentKey.fromEvent id ev with hkey
  set r := t.entry key ev with hr
  have hget (k : AgentKey) : (agentEvent t id ev).1.get k =
      if key = k then some (r.apply t.cfg ev).1 else t.get k := by
    rw [tracker_agentEvent, Tracker.get_apply]
    split_ifs with hk
    · subst hk
      rfl
    · rfl
  have hrkey : (r.apply t.cfg ev).1.key = key := by rw [AgentRecord.apply_key, hr, t.entry_key]
  -- the record is told, and then its alert
  have htold : (t.get key).map (fun r => (r.state, r.acknowledged)) ≠
        some ((r.apply t.cfg ev).1.state, (r.apply t.cfg ev).1.acknowledged) →
      (∀ a, (r.apply t.cfg ev).2 = some a → a.key = r.key ∧
        a.state = (r.apply t.cfg ev).1.state ∧ (r.apply t.cfg ev).1.acknowledged = false) →
      Tells t (agentEvent t id ev).1 (agentEvent t id ev).2 := by
    intro hne halert
    rw [if_neg hne] at hout
    have hmem : ∀ r', .agent r' ∈ (agentEvent t id ev).2 → r' = (r.apply t.cfg ev).1 := by
      intro r' hr'
      rw [hout] at hr'
      simpa using hr'
    constructor
    · intro r' hr'
      obtain rfl := hmem r' hr'
      rw [hrkey, hget, if_pos rfl]
      refine ⟨rfl, fun heq => hne ?_⟩
      obtain ⟨r₀, hr₀, hs⟩ := Option.map_eq_some_iff.mp heq
      rw [hr₀, Option.map_some]
      simp only [shown, Prod.mk.injEq] at hs
      rw [hs.2.1, hs.2.2.2.1]
    · intro k hk
      have hne : key ≠ k := by
        rintro rfl
        refine hk (r.apply t.cfg ev).1 ?_ hrkey
        rw [hout]
        exact List.mem_cons_self
      rw [hget, if_neg hne]
    · intro pre a post heq
      rw [hout] at heq
      cases ha : (r.apply t.cfg ev).2 with
      | none =>
        rw [ha] at heq
        rcases pre with _ | ⟨x, pre⟩ <;> simp at heq
      | some a' =>
        rw [ha] at heq
        rcases pre with _ | ⟨x, _ | ⟨y, pre⟩⟩ <;> simp at heq
        obtain ⟨rfl, rfl, -⟩ := heq
        obtain ⟨hak, has, hack⟩ := halert a' ha
        refine ⟨[], (r.apply t.cfg ev).1, rfl, ?_, has.symm, hack⟩
        rw [AgentRecord.apply_key, hak]
  rcases shown_apply r t.cfg ev with ⟨hsame, hnone⟩ | ⟨hstate, halert⟩
  · cases hg : t.get key with
    | none => exact htold (by rw [hg]; nofun) fun a ha => by cases hnone.symm.trans ha
    | some r₀ =>
      have hr₀ : r = r₀ := by
        rw [hr, Tracker.entry, hg]
        rfl
      have hsum : (r₀.state, r₀.acknowledged) =
          ((r.apply t.cfg ev).1.state, (r.apply t.cfg ev).1.acknowledged) := by
        simp only [shown, Prod.mk.injEq] at hsame
        rw [hsame.2.1, hsame.2.2.2.1, hr₀]
      rw [hg, Option.map_some, if_pos (congrArg some hsum), hnone] at hout
      refine .silent (fun k => ?_) (by simp [hout]) (by simp [hout])
      rw [hget]
      split_ifs with hk
      · rw [← hk, hg, Option.map_some, Option.map_some, hsame, hr₀]
      · rfl
  · refine htold (fun heq => ?_) halert
    obtain ⟨r₀, hg, hs⟩ := Option.map_eq_some_iff.mp heq
    have hr₀ : r = r₀ := by
      rw [hr, Tracker.entry, hg]
      rfl
    exact hstate ((Prod.mk.inj hs).1.symm.trans (congrArg AgentRecord.state hr₀.symm))

theorem Tells.acknowledge (m : Monitor) (key : AgentKey) :
    Tells m.tracker (m.acknowledge key).1.tracker (m.acknowledge key).2.toList := by
  rw [acknowledge_update]
  cases hr : m.tracker.get key with
  | none =>
    refine .silent (fun k => ?_) nofun nofun
    rw [Monitor.get_acknowledge]
    split_ifs with hk
    · rw [← hk, hr]
      rfl
    · rfl
  | some was =>
    have hwas : was.key = key := m.tracker.keyed key was hr
    rw [Option.bind_some]
    split_ifs with hack
    · refine .silent (fun k => ?_) nofun nofun
      rw [Monitor.get_acknowledge]
      split_ifs with hk
      · rw [← hk, hr]
        simp [shown, AgentRecord.acknowledge, hack]
      · rfl
    · constructor
      · intro r hmem
        obtain rfl : r = was.acknowledge := by simpa using hmem
        rw [AgentRecord.acknowledge_key, hwas, Monitor.get_acknowledge, if_pos rfl, hr]
        refine ⟨rfl, fun heq => hack ?_⟩
        exact congrArg (fun x => x.2.2.2.1) (Option.some.inj heq)
      · intro k hk
        have hne : key ≠ k := fun h => hk was.acknowledge (by simp) (by simp [hwas, h])
        rw [Monitor.get_acknowledge, if_neg hne]
      · exact alertFollows_of_silent (by simp)

/-- What the updates of any call say. -/
theorem Tells.takes {m m' : Monitor} {c : MonitorCall} (h : Takes m c m' out) :
    Tells m.tracker m'.tracker out := by
  cases h with
  | sessions hp => exact .walk hp nofun nofun
  | panes hp => exact .walk hp nofun nofun
  | steps hl =>
    cases c with
    | acknowledge key => exact .acknowledge m key
    | apply id ev nowMs =>
      cases ev with
      | msg msg =>
        cases msg with
        | agentEvent ev => exact .event m.tracker id ev
        | sessions => cases hl
        | panes => cases hl
        | _ => exact .silent (fun _ => rfl)
                (by simp [MonitorCall.step, Monitor.apply, applyMsg])
                (by simp [MonitorCall.step, Monitor.apply, applyMsg])
      | _ => exact .silent (fun _ => rfl)
              (by simp [MonitorCall.step, Monitor.apply, hostUpdate])
              (by simp [MonitorCall.step, Monitor.apply, hostUpdate])

end Steps

section Runs

variable {t t' : Tracker} {us out : List Update}

/-- A mirror of the records before a call mirrors those after it. -/
theorem Tells.mirror (h : Tells t t' out)
    (hm : ∀ key, (mirror us key).map shown = (t.get key).map shown) (key : AgentKey) :
    (Mirror.mirror (us ++ out) key).map shown = (t'.get key).map shown := by
  rw [Mirror.mirror, Log.latest_append, ← Mirror.mirror]
  by_cases hk : ∃ r, .agent r ∈ out ∧ r.key = key
  · obtain ⟨r, hr, rfl⟩ := hk
    obtain ⟨hget, -⟩ := h.record r hr
    rw [hget, Log.latest_of_forall (b := some r) (fun u hu c hc => ?_) ⟨_, hr, by simp [tells]⟩]
    cases u with
    | agent r' =>
      simp only [tells] at hc
      split_ifs at hc with hk
      cases hc
      have hget' := (h.record r' hu).1
      rw [hk, hget] at hget'
      exact hget'.symm
    | _ => cases hc
  · have hsilent : ∀ u ∈ out, tells key u = none := by
      intro u hu
      cases u with
      | agent r => exact if_neg fun h => hk ⟨r, hu, h⟩
      | _ => rfl
    rw [Log.latest_of_silent hsilent, hm, h.others key fun r hr h => hk ⟨r, hr, h⟩]

theorem AlertFollows.append (h : AlertFollows us) (h' : AlertFollows out) :
    AlertFollows (us ++ out) := by
  intro pre a post heq
  rcases Log.append_eq_cut.mp heq with ⟨mid, hold, -⟩ | ⟨mid, rfl, hnew⟩
  · exact h pre a mid hold
  · obtain ⟨pre', r, rfl, hr⟩ := h' mid a post hnew
    exact ⟨us ++ pre', r, (List.append_assoc ..).symm, hr⟩

theorem runs_mirror {m m' : Monitor} {h : List (MonitorCall × List Update)}
    (hr : Runs Takes m h m') (halerts : AlertFollows us)
    (hm : ∀ key, (mirror us key).map shown = (m.tracker.get key).map shown) :
    (∀ key, (mirror (us ++ updates h) key).map shown = (m'.tracker.get key).map shown) ∧
      AlertFollows (us ++ updates h) := by
  induction hr generalizing us with
  | nil =>
    rw [updates, List.flatMap_nil, List.append_nil]
    exact ⟨hm, halerts⟩
  | @cons s₀ s₁ s₂ c out h ht _ ih =>
    have htells := Tells.takes ht
    rw [updates, List.flatMap_cons, ← List.append_assoc]
    exact ih (halerts.append htells.alerts) (htells.mirror hm)

/-- After every call, who keeps the last record told of each agent knows the agents that the
tracker knows and shows the same of each; an alert comes right after the record of its agent, and
a call that changes nothing that is shown tells no record. -/
theorem mirrors (cfg : TrackerConfig) {h : List (MonitorCall × List Update)} {m : Monitor}
    (hr : Runs Takes (.new cfg) h m) :
    (∀ key, (mirror (updates h) key).isSome ↔ key ∈ m.tracker.records.map AgentRecord.key) ∧
    (∀ r ∈ m.tracker.records, (mirror (updates h) r.key).map shown = some (shown r)) ∧
    AlertFollows (updates h) ∧
    ∀ c m' out, Takes m c m' out →
      (∀ key, (m'.tracker.get key).map shown = (m.tracker.get key).map shown) →
      ∀ r, .agent r ∉ out := by
  have hstart : AlertFollows [] := alertFollows_of_silent nofun
  obtain ⟨hmirror, halerts⟩ := runs_mirror hr hstart fun key => by
    rw [Monitor.new, Tracker.get_new]
    rfl
  rw [List.nil_append] at hmirror halerts
  refine ⟨fun key => ?_, fun r hmem => ?_, halerts, fun c m' out ht hsame r hout => ?_⟩
  · have hsome := congrArg Option.isSome (hmirror key)
    rw [Option.isSome_map, Option.isSome_map] at hsome
    rw [hsome, List.mem_map]
    constructor
    · intro hget
      obtain ⟨r, hget⟩ := Option.isSome_iff_exists.mp hget
      obtain rfl := m.tracker.keyed key r hget
      exact ⟨r, Tracker.mem_records.mpr hget, rfl⟩
    · rintro ⟨r, hmem, rfl⟩
      rw [Tracker.mem_records.mp hmem]
      rfl
  · rw [hmirror, Tracker.mem_records.mp hmem, Option.map_some]
  · obtain ⟨hget, hne⟩ := (Tells.takes ht).record r hout
    rw [← hsame, hget] at hne
    exact hne rfl

/-- An agent asks, and is acknowledged. -/
theorem mirrors_acknowledged :
    let ev : AgentEvent := ⟨⟨"main", 0⟩, "claude", .hook, .needsInput, none, 5, none⟩
    let calls : List MonitorCall :=
      [.apply "a" (.msg (.agentEvent ev)) 1, .acknowledge ⟨"a", "main", 0⟩]
    let h := calls.zip (Machine.answers MonitorCall.step (.new .default) calls)
    (mirror (updates h) ⟨"a", "main", 0⟩).isSome ↔
      (⟨"a", "main", 0⟩ : AgentKey) ∈
        (Machine.run MonitorCall.step (.new .default) calls).tracker.records.map AgentRecord.key := by
  intro ev calls h
  exact (mirrors .default (runs_step (.new .default) calls)).1 ⟨"a", "main", 0⟩

end Runs

end Mirror

end MultiAi
