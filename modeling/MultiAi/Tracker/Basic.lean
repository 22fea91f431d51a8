import MultiAi.Protocol.Types

/-! # Agent tracker

Merges hook and scrape events of each agent and decides when the user must be
alerted. A record is updated by one event in two parts: the source filter, which
may ignore the event, and the state change with its alert.
-/

namespace MultiAi

open Std OrderedMap

/-- Identifies one agent: a pane in a zellij session on a host. -/
structure AgentKey where
  hostId : String
  session : String
  paneId : ℕ
  deriving DecidableEq, Repr

namespace AgentKey

instance : Ord AgentKey :=
  ⟨compareLex (compareOn hostId) (compareLex (compareOn session) (compareOn paneId))⟩

instance : TransOrd AgentKey :=
  inferInstanceAs
    (TransCmp (compareLex (compareOn hostId) (compareLex (compareOn session) (compareOn paneId))))

instance : LawfulEqOrd AgentKey where
  eq_of_compare {a b} h := by
    obtain ⟨hh, h⟩ := compareLex_eq_iff.mp h
    obtain ⟨hs, hp⟩ := compareLex_eq_iff.mp h
    cases a; cases b
    simp only [mk.injEq]
    exact ⟨compareOn_eq_iff.mp hh, compareOn_eq_iff.mp hs, compareOn_eq_iff.mp hp⟩

def fromEvent (hostId : String) (ev : AgentEvent) : AgentKey where
  hostId := hostId
  session := ev.pane.session
  paneId := ev.pane.paneId

/-- The pane of the agent on its host. -/
def pane (k : AgentKey) : PaneRef := ⟨k.session, k.paneId⟩

end AgentKey

structure TrackerConfig where
  /-- While a hook event is newer than this, scrape events may only move an idle
  agent back to `working`. -/
  hookAuthorityMs : ℕ
  /-- Re-entering the same alerting state within this window is silent. -/
  alertDedupeMs : ℕ
  deriving DecidableEq, Repr

/-- The default windows: ten minutes of hook authority, thirty seconds of silence. -/
def TrackerConfig.default : TrackerConfig := ⟨600000, 30000⟩

/-- Emitted when the user should be notified. -/
structure Alert where
  key : AgentKey
  agent : String
  state : AgentState
  message : Option String
  deriving DecidableEq, Repr

structure AgentRecord where
  key : AgentKey
  agent : String
  state : AgentState
  message : Option String
  /-- False while an alerting state has not been seen by the user. -/
  acknowledged : Bool
  /-- When `state` was entered. -/
  sinceMs : ℕ
  lastHookMs : Option ℕ
  lastHookOffset : Option ℕ
  lastAlert : Option (AgentState × ℕ)
  deriving DecidableEq, Repr

def isAlerting (s : AgentState) : Bool := s = .needsInput || s = .done

def scrapeMayOverride (fromState toState : AgentState) : Bool :=
  isAlerting fromState && toState = .working

namespace AgentRecord

/-- The record of an agent seen for the first time, by event `ev`. -/
def initial (key : AgentKey) (ev : AgentEvent) : AgentRecord where
  key := key
  agent := ev.agent
  state := .unknown
  message := none
  acknowledged := true
  sinceMs := ev.tsMs
  lastHookMs := none
  lastHookOffset := none
  lastAlert := none

/-- A hook event that is no news: its cursor is not past the last one, or it
carries none and is older than the last hook event. -/
def staleHook (r : AgentRecord) (ev : AgentEvent) : Bool :=
  match ev.spoolOffset with
  | some o => r.lastHookOffset.any (o ≤ ·)
  | none => r.lastHookMs.any (ev.tsMs < ·)

/-- A hook event is newer than the authority window at the time of `ev`. -/
def authoritative (r : AgentRecord) (cfg : TrackerConfig) (ev : AgentEvent) : Bool :=
  r.lastHookMs.any (ev.tsMs - · < cfg.hookAuthorityMs)

/-- The source filter: `none` when the event is ignored, otherwise the record
with the hook time and cursor taken over. -/
def accept (r : AgentRecord) (cfg : TrackerConfig) (ev : AgentEvent) : Option AgentRecord :=
  match ev.source with
  | .hook =>
    if r.staleHook ev then none
    else some { r with
      lastHookMs := some ev.tsMs
      lastHookOffset := ev.spoolOffset.or r.lastHookOffset }
  | .scrape =>
    if r.authoritative cfg ev && !scrapeMayOverride r.state ev.state then none
    else some r

/-- The alert of this state was raised within the silent window. -/
def silenced (r : AgentRecord) (cfg : TrackerConfig) (ev : AgentEvent) : Bool :=
  r.lastAlert.any fun (s, t) => s = ev.state && ev.tsMs - t < cfg.alertDedupeMs

/-- The record with the state of `ev`, acknowledged unless that state alerts. -/
def moved (r : AgentRecord) (ev : AgentEvent) : AgentRecord :=
  { r with
    agent := ev.agent
    state := ev.state
    message := ev.message
    sinceMs := ev.tsMs
    acknowledged := !isAlerting ev.state }

/-- The state change of an event that passed the source filter. -/
def enter (r : AgentRecord) (cfg : TrackerConfig) (ev : AgentEvent) :
    AgentRecord × Option Alert :=
  if r.state = ev.state then (r, none)
  else if !isAlerting ev.state then (r.moved ev, none)
  else if r.silenced cfg ev then (r.moved ev, none)
  else
    ({ r.moved ev with lastAlert := some (ev.state, ev.tsMs) },
      some ⟨r.key, ev.agent, ev.state, ev.message⟩)

def apply (r : AgentRecord) (cfg : TrackerConfig) (ev : AgentEvent) :
    AgentRecord × Option Alert :=
  match r.accept cfg ev with
  | none => (r, none)
  | some r => r.enter cfg ev

/-- The record after its pane disappeared or exited. -/
def gone (nowMs : ℕ) (r : AgentRecord) : AgentRecord :=
  { r with state := .exited, sinceMs := nowMs, acknowledged := true }

def acknowledge (r : AgentRecord) : AgentRecord := { r with acknowledged := true }

@[simp] theorem initial_key (key : AgentKey) (ev : AgentEvent) :
    (initial key ev).key = key := rfl

@[simp] theorem gone_key (nowMs : ℕ) (r : AgentRecord) : (r.gone nowMs).key = r.key := rfl

@[simp] theorem acknowledge_key (r : AgentRecord) : r.acknowledge.key = r.key := rfl

variable {r r' : AgentRecord} {cfg : TrackerConfig} {ev : AgentEvent}

theorem accept_hook (h : ev.source = .hook) :
    r.accept cfg ev = some r' ↔ r.staleHook ev = false ∧
      { r with
        lastHookMs := some ev.tsMs
        lastHookOffset := ev.spoolOffset.or r.lastHookOffset } = r' := by
  rw [accept, h]
  cases r.staleHook ev <;> simp

theorem accept_scrape (h : ev.source = .scrape) :
    r.accept cfg ev = some r' ↔
      (r.authoritative cfg ev && !scrapeMayOverride r.state ev.state) = false ∧ r = r' := by
  rw [accept, h]
  cases r.authoritative cfg ev && !scrapeMayOverride r.state ev.state <;> simp

/-- The source filter changes the hook time and cursor only. -/
theorem accept_frame (h : r.accept cfg ev = some r') :
    r'.key = r.key ∧ r'.agent = r.agent ∧ r'.state = r.state ∧ r'.message = r.message ∧
      r'.acknowledged = r.acknowledged ∧ r'.sinceMs = r.sinceMs ∧ r'.lastAlert = r.lastAlert := by
  cases hs : ev.source with
  | hook =>
    obtain ⟨-, rfl⟩ := (accept_hook hs).mp h
    exact ⟨rfl, rfl, rfl, rfl, rfl, rfl, rfl⟩
  | scrape =>
    obtain ⟨-, rfl⟩ := (accept_scrape hs).mp h
    exact ⟨rfl, rfl, rfl, rfl, rfl, rfl, rfl⟩

@[simp] theorem enter_key : (r.enter cfg ev).1.key = r.key := by
  unfold enter; split_ifs <;> rfl

@[simp] theorem enter_state : (r.enter cfg ev).1.state = ev.state := by
  unfold enter; split_ifs with h <;> first | exact h | rfl

@[simp] theorem enter_lastHookMs : (r.enter cfg ev).1.lastHookMs = r.lastHookMs := by
  unfold enter; split_ifs <;> rfl

@[simp] theorem enter_lastHookOffset :
    (r.enter cfg ev).1.lastHookOffset = r.lastHookOffset := by
  unfold enter; split_ifs <;> rfl

theorem enter_same (h : r.state = ev.state) : r.enter cfg ev = (r, none) := by
  rw [enter, if_pos h]

theorem apply_of_accept (h : r.accept cfg ev = some r') :
    r.apply cfg ev = r'.enter cfg ev := by
  rw [apply, h]

theorem apply_of_ignored (h : r.accept cfg ev = none) : r.apply cfg ev = (r, none) := by
  rw [apply, h]

/-- An alert is returned with the record that remembers it, or the last one stays. -/
theorem apply_alert_cases (r : AgentRecord) (cfg : TrackerConfig) (ev : AgentEvent) :
    ((r.apply cfg ev).2 = none ∧ (r.apply cfg ev).1.lastAlert = r.lastAlert) ∨
    ((r.apply cfg ev).2 = some ⟨r.key, ev.agent, ev.state, ev.message⟩ ∧
      (r.apply cfg ev).1.lastAlert = some (ev.state, ev.tsMs)) := by
  cases h : r.accept cfg ev with
  | none => exact .inl (by rw [apply_of_ignored h]; exact ⟨rfl, rfl⟩)
  | some r' =>
    obtain ⟨hk, -, -, -, -, -, hl⟩ := accept_frame h
    rw [apply_of_accept h, ← hk, ← hl]
    unfold enter
    split_ifs
    · exact .inl ⟨rfl, rfl⟩
    · exact .inl ⟨rfl, rfl⟩
    · exact .inl ⟨rfl, rfl⟩
    · exact .inr ⟨rfl, rfl⟩

/-- Entering an alerting state alerts unless the last alert silences it. -/
theorem apply_alert_isSome (h : r.accept cfg ev = some r') (hs : r'.state ≠ ev.state)
    (ha : isAlerting ev.state) :
    (r.apply cfg ev).2.isSome ↔ r.silenced cfg ev = false := by
  have hl : r'.silenced cfg ev = r.silenced cfg ev := by
    simp only [silenced, (accept_frame h).2.2.2.2.2.2]
  rw [apply_of_accept h, enter, if_neg hs, if_neg (by simp [ha]), hl]
  cases r.silenced cfg ev <;> simp

theorem enters_of_alert {a : Alert} (h : (r.apply cfg ev).2 = some a) :
    (∃ r', r.accept cfg ev = some r' ∧ r'.state ≠ ev.state ∧ isAlerting ev.state) ∧
      a = ⟨r.key, ev.agent, ev.state, ev.message⟩ := by
  refine ⟨?_, ?_⟩
  · cases hacc : r.accept cfg ev with
    | none => rw [apply_of_ignored hacc] at h; cases h
    | some r' =>
      rw [apply_of_accept hacc] at h
      unfold enter at h
      split_ifs at h with hs ha
      exact ⟨r', rfl, hs, by simpa using ha⟩
  · rcases apply_alert_cases r cfg ev with ⟨hn, -⟩ | ⟨hs, -⟩
    · rw [hn] at h; cases h
    · exact (Option.some.inj (hs.symm.trans h)).symm

/-- Only an accepted hook event moves the last offset. -/
theorem apply_lastHookOffset (r : AgentRecord) (cfg : TrackerConfig) (ev : AgentEvent) :
    (r.apply cfg ev).1.lastHookOffset =
      if ev.source = .hook ∧ r.staleHook ev = false then ev.spoolOffset.or r.lastHookOffset
      else r.lastHookOffset := by
  cases hs : ev.source with
  | hook =>
    by_cases hst : r.staleHook ev = false
    · rw [apply_of_accept ((accept_hook hs).mpr ⟨hst, rfl⟩), enter_lastHookOffset,
        if_pos ⟨rfl, hst⟩]
    · have hnone : r.accept cfg ev = none := by
        rw [accept, hs]
        simp [hst]
      rw [apply_of_ignored hnone, if_neg fun h => hst h.2]
  | scrape =>
    rw [if_neg (by simp)]
    cases ha : r.accept cfg ev with
    | none => rw [apply_of_ignored ha]
    | some r' =>
      obtain ⟨-, rfl⟩ := (accept_scrape hs).mp ha
      rw [apply_of_accept ha, enter_lastHookOffset]

@[simp] theorem apply_key : (r.apply cfg ev).1.key = r.key := by
  cases h : r.accept cfg ev with
  | none => rw [apply_of_ignored h]
  | some r' => rw [apply_of_accept h, enter_key, (accept_frame h).1]

end AgentRecord

/-- All tracked agents, each under its own key. -/
structure Tracker where
  cfg : TrackerConfig
  agents : ExtTreeMap AgentKey AgentRecord
  keyed : ∀ (k : AgentKey) (r : AgentRecord), agents[k]? = some r → r.key = k

namespace Tracker

def new (cfg : TrackerConfig) : Tracker where
  cfg := cfg
  agents := ∅
  keyed k r h := by simp at h

def get (t : Tracker) (key : AgentKey) : Option AgentRecord := t.agents[key]?

/-- The record that event `ev` is applied to: the tracked one or a first one. -/
def entry (t : Tracker) (key : AgentKey) (ev : AgentEvent) : AgentRecord :=
  (t.get key).getD (.initial key ev)

theorem entry_key (t : Tracker) (key : AgentKey) (ev : AgentEvent) :
    (t.entry key ev).key = key := by
  unfold entry
  cases h : t.get key with
  | none => rfl
  | some r => exact t.keyed key r h

/-- Apply one event; returns an alert when the user should be notified. -/
def apply (t : Tracker) (hostId : String) (ev : AgentEvent) : Tracker × Option Alert :=
  let key := AgentKey.fromEvent hostId ev
  let out := (t.entry key ev).apply t.cfg ev
  ({ cfg := t.cfg
     agents := t.agents.insert key out.1
     keyed := fun k r h => by
      rw [ExtTreeMap.getElem?_insert] at h
      split_ifs at h with hk
      · obtain rfl := LawfulEqOrd.eq_of_compare hk
        rw [← Option.some.inj h, AgentRecord.apply_key, entry_key]
      · exact t.keyed k r h }, out.2)

/-- Apply `f`, which keeps keys, to the record of `key`. -/
def modify (t : Tracker) (key : AgentKey) (f : AgentRecord → AgentRecord)
    (hf : ∀ r, (f r).key = r.key) : Tracker where
  cfg := t.cfg
  agents := t.agents.modify key f
  keyed k r h := by
    rw [getElem?_modify_eq] at h
    split_ifs at h
    · obtain ⟨r', hr, rfl⟩ := Option.map_eq_some_iff.mp h
      rw [hf, t.keyed k r' hr]
    · exact t.keyed k r h

/-- The pane disappeared or exited. -/
def paneGone (t : Tracker) (key : AgentKey) (nowMs : ℕ) : Tracker :=
  t.modify key (.gone nowMs) (AgentRecord.gone_key nowMs)

/-- Mark the current alert as seen. Returns false for unknown keys. -/
def acknowledge (t : Tracker) (key : AgentKey) : Tracker × Bool :=
  (t.modify key .acknowledge AgentRecord.acknowledge_key, (t.get key).isSome)

/-- Every tracked agent. The source iterates a hash map, in no particular order;
here they come in key order. -/
def records (t : Tracker) : List AgentRecord := t.agents.toList.map Prod.snd

/-- Rank of a pending record: `needsInput` first, then oldest first, then by key. -/
def pendingLE (a b : AgentRecord) : Bool :=
  let rank (r : AgentRecord) : ℕ := if r.state = .needsInput then 0 else 1
  (compareLex (compareOn rank)
    (compareLex (compareOn AgentRecord.sinceMs) (compareOn AgentRecord.key)) a b).isLE

/-- Unacknowledged alerting agents: `needsInput` first, then `done`, each group
oldest first. -/
def pending (t : Tracker) : List AgentRecord :=
  (t.records.filter fun r => isAlerting r.state && !r.acknowledged).mergeSort pendingLE

@[simp] theorem get_new (cfg : TrackerConfig) (k : AgentKey) : (new cfg).get k = none := by
  simp [get, new]

@[simp] theorem cfg_apply (t : Tracker) (hostId : String) (ev : AgentEvent) :
    (t.apply hostId ev).1.cfg = t.cfg := rfl

@[simp] theorem cfg_paneGone (t : Tracker) (key : AgentKey) (nowMs : ℕ) :
    (t.paneGone key nowMs).cfg = t.cfg := rfl

@[simp] theorem cfg_acknowledge (t : Tracker) (key : AgentKey) :
    (t.acknowledge key).1.cfg = t.cfg := rfl

theorem get_apply (t : Tracker) (hostId : String) (ev : AgentEvent) (k : AgentKey) :
    (t.apply hostId ev).1.get k =
      if AgentKey.fromEvent hostId ev = k then some ((t.entry k ev).apply t.cfg ev).1
      else t.get k := by
  simp only [get, apply, ExtTreeMap.getElem?_insert, LawfulEqCmp.compare_eq_iff_eq]
  split_ifs with h
  · rw [h]
  · rfl

theorem alert_apply (t : Tracker) (hostId : String) (ev : AgentEvent) :
    (t.apply hostId ev).2 = ((t.entry (.fromEvent hostId ev) ev).apply t.cfg ev).2 := rfl

theorem get_paneGone (t : Tracker) (key : AgentKey) (nowMs : ℕ) (k : AgentKey) :
    (t.paneGone key nowMs).get k =
      if key = k then (t.get k).map (.gone nowMs) else t.get k :=
  getElem?_modify_eq _ _ _ _

theorem get_acknowledge (t : Tracker) (key k : AgentKey) :
    (t.acknowledge key).1.get k =
      if key = k then (t.get k).map .acknowledge else t.get k :=
  getElem?_modify_eq _ _ _ _

theorem mem_records {t : Tracker} {r : AgentRecord} : r ∈ t.records ↔ t.get r.key = some r := by
  rw [records, List.mem_map]
  constructor
  · rintro ⟨⟨k, _⟩, h, rfl⟩
    have h := ExtTreeMap.mem_toList_iff_getElem?_eq_some.mp h
    rwa [t.keyed k _ h]
  · intro h
    exact ⟨(r.key, r), ExtTreeMap.mem_toList_iff_getElem?_eq_some.mpr h, rfl⟩

theorem nodup_records_key (t : Tracker) : (t.records.map AgentRecord.key).Nodup := by
  have h : t.records.map AgentRecord.key = t.agents.keys := by
    rw [records, ← ExtTreeMap.map_fst_toList_eq_keys, List.map_map]
    refine List.map_congr_left fun ⟨k, r⟩ h => ?_
    exact t.keyed k r (ExtTreeMap.mem_toList_iff_getElem?_eq_some.mp h)
  exact h ▸ ExtTreeMap.nodup_keys

theorem mem_pending {t : Tracker} {r : AgentRecord} :
    r ∈ t.pending ↔ t.get r.key = some r ∧ isAlerting r.state ∧ r.acknowledged = false := by
  simp [pending, List.mem_mergeSort, mem_records]

end Tracker

end MultiAi
