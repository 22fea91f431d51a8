import Mathlib.Data.List.Nodup
import Mathlib.Data.String.Basic
import MultiAi.Library.Log
import MultiAi.Tracker.Dedupe

/-! # Unseen alerts

The agents that are pending are those whose last change of state was into an alerting one and
that were not acknowledged since, and they are listed in one order only.
-/

namespace MultiAi

open Std OrderedMap

namespace Pending

open Dedupe

/-- The state that a call moves an agent to, and when: an accepted event with another state
does, and a pane that is gone. -/
def entered (t : Tracker) (key : AgentKey) : TrackerOp → Option (AgentState × ℕ)
  | .apply hostId ev =>
    if AgentKey.fromEvent hostId ev = key then
      match (t.entry key ev).accept t.cfg ev with
      | some r => if r.state = ev.state then none else some (ev.state, ev.tsMs)
      | none => none
    else none
  | .paneGone k nowMs => if k = key ∧ (t.get key).isSome then some (.exited, nowMs) else none
  | .acknowledge _ => none

/-- The call neither moves the agent to a state nor acknowledges it. -/
def Leaves (t : Tracker) (key : AgentKey) (op : TrackerOp) : Prop :=
  entered t key op = none ∧ op ≠ .acknowledge key

/-- The last call that moved the agent to a state, moved it to this alerting one, and no call
acknowledged it since. -/
def Unseen (cfg : TrackerConfig) (ops : List TrackerOp) (key : AgentKey) (state : AgentState)
    (sinceMs : ℕ) : Prop :=
  ∃ pre op post, ops = pre ++ op :: post ∧
    entered (tracker cfg pre) key op = some (state, sinceMs) ∧ isAlerting state ∧
    ∀ mid op' rest, post = mid ++ op' :: rest → Leaves (tracker cfg (pre ++ op :: mid)) key op'

/-- Keys by host, session and pane. -/
def KeyBefore (a b : AgentKey) : Prop :=
  a.hostId < b.hostId ∨ a.hostId = b.hostId ∧
    (a.session < b.session ∨ a.session = b.session ∧ a.paneId < b.paneId)

/-- Questions before ends, each group oldest first, then by key. -/
def Before (a b : AgentRecord) : Prop :=
  a.state = .needsInput ∧ b.state = .done ∨ a.state = b.state ∧
    (a.sinceMs < b.sinceMs ∨ a.sinceMs = b.sinceMs ∧ KeyBefore a.key b.key)

/-- The agent has an unseen alert. -/
def Shows (t : Tracker) (key : AgentKey) (state : AgentState) (sinceMs : ℕ) : Prop :=
  ∃ r, t.get key = some r ∧ r.state = state ∧ r.sinceMs = sinceMs ∧ isAlerting r.state ∧
    r.acknowledged = false

variable {cfg : TrackerConfig} {ops : List TrackerOp} {t : Tracker} {key : AgentKey}
  {op : TrackerOp} {state : AgentState} {sinceMs : ℕ}

section Steps

/-- What the user is shown of an agent. -/
def shown (r : AgentRecord) : AgentState × ℕ × Bool := (r.state, r.sinceMs, r.acknowledged)

theorem shown_accept {r r' : AgentRecord} {ev : AgentEvent} (h : r.accept cfg ev = some r') :
    shown r' = shown r := by
  obtain ⟨-, -, hs, -, ha, ht, -⟩ := AgentRecord.accept_frame h
  rw [shown, shown, hs, ha, ht]

theorem shown_enter_of_ne {r : AgentRecord} {ev : AgentEvent} (h : r.state ≠ ev.state) :
    shown (r.enter cfg ev).1 = (ev.state, ev.tsMs, !isAlerting ev.state) := by
  rw [AgentRecord.enter, if_neg h]
  split_ifs <;> rfl

/-- A call that moves an agent to a state. -/
theorem get_of_entered (h : entered t key op = some (state, sinceMs)) :
    ∃ r, (step t op).1.get key = some r ∧ shown r = (state, sinceMs, !isAlerting state) := by
  cases op with
  | apply hostId ev =>
    simp only [entered] at h
    split_ifs at h with hk
    cases hacc : (t.entry key ev).accept t.cfg ev with
    | none => simp [hacc] at h
    | some r =>
      by_cases hs : r.state = ev.state
      · simp [hacc, hs] at h
      · simp only [hacc, hs, if_false, Option.some.injEq, Prod.mk.injEq] at h
        obtain ⟨rfl, rfl⟩ := h
        refine ⟨(r.enter t.cfg ev).1, ?_, shown_enter_of_ne hs⟩
        rw [step, Tracker.get_apply, if_pos hk, AgentRecord.apply_of_accept hacc]
  | paneGone k nowMs =>
    simp only [entered] at h
    split_ifs at h with hk
    obtain ⟨rfl, hsome⟩ := hk
    obtain ⟨r, hr⟩ := Option.isSome_iff_exists.mp hsome
    cases h
    refine ⟨r.gone _, ?_, rfl⟩
    rw [step, Tracker.get_paneGone, if_pos rfl, hr, Option.map_some]
  | acknowledge k => cases h

/-- A call that leaves an agent as it is shows the same of it, or makes its first record. -/
theorem get_of_leaves (h : Leaves t key op) :
    ((step t op).1.get key).map shown = (t.get key).map shown ∨
      t.get key = none ∧ ∃ r, (step t op).1.get key = some r ∧ r.acknowledged = true := by
  obtain ⟨hnone, hack⟩ := h
  cases op with
  | apply hostId ev =>
    by_cases hk : AgentKey.fromEvent hostId ev = key
    · have hshown : shown ((t.entry key ev).apply t.cfg ev).1 = shown (t.entry key ev) := by
        cases hacc : (t.entry key ev).accept t.cfg ev with
        | none => rw [AgentRecord.apply_of_ignored hacc]
        | some r =>
          have hs : r.state = ev.state := by
            by_contra hs
            simp [entered, hk, hacc, hs] at hnone
          rw [AgentRecord.apply_of_accept hacc, AgentRecord.enter_same hs, shown_accept hacc]
      rw [step, Tracker.get_apply, if_pos hk]
      cases hr : t.get key with
      | none =>
        refine Or.inr ⟨rfl, _, rfl, ?_⟩
        have hentry : t.entry key ev = .initial key ev := by rw [Tracker.entry, hr]; rfl
        rw [hentry] at hshown
        have hflag := congrArg (fun x => x.2.2) hshown
        rw [hentry]
        exact hflag
      | some r =>
        have hentry : t.entry key ev = r := by rw [Tracker.entry, hr]; rfl
        rw [hentry] at hshown
        rw [hentry]
        exact Or.inl (congrArg some hshown)
    · rw [step, Tracker.get_apply, if_neg hk]
      exact Or.inl rfl
  | paneGone k nowMs =>
    refine Or.inl ?_
    rw [step, Tracker.get_paneGone]
    split_ifs with hk
    · have hget : t.get key = none := by
        by_contra hs
        have hsome : (t.get key).isSome := Option.isSome_iff_ne_none.mpr hs
        simp [entered, hk, hsome] at hnone
      rw [hget, Option.map_none]
    · rfl
  | acknowledge k =>
    have hk : k ≠ key := fun hk => hack (by rw [hk])
    rw [step, Tracker.get_acknowledge, if_neg hk]
    exact Or.inl rfl

theorem get_of_acknowledge :
    (step t (.acknowledge key)).1.get key = (t.get key).map .acknowledge := by
  rw [step, Tracker.get_acknowledge, if_pos rfl]

theorem shows_iff : Shows t key state sinceMs ↔
    isAlerting state = true ∧ (t.get key).map shown = some (state, sinceMs, false) := by
  constructor
  · rintro ⟨r, hr, rfl, rfl, ha, hu⟩
    exact ⟨ha, by rw [hr, Option.map_some, shown, hu]⟩
  · rintro ⟨ha, h⟩
    obtain ⟨r, hr, hs⟩ := Option.map_eq_some_iff.mp h
    simp only [shown, Prod.mk.injEq] at hs
    obtain ⟨rfl, rfl, hu⟩ := hs
    exact ⟨r, hr, rfl, rfl, ha, hu⟩

/-- What one more call does to the unseen alert of an agent. -/
theorem shows_step : Shows (step t op).1 key state sinceMs ↔
    entered t key op = some (state, sinceMs) ∧ isAlerting state = true ∨
      Leaves t key op ∧ Shows t key state sinceMs := by
  rw [shows_iff, shows_iff]
  cases he : entered t key op with
  | some entry =>
    obtain ⟨state', sinceMs'⟩ := entry
    obtain ⟨r, hr, hs⟩ := get_of_entered he
    rw [hr, Option.map_some, hs]
    have hleaves : ¬Leaves t key op := fun h => by cases he.symm.trans h.1
    constructor
    · rintro ⟨ha, heq⟩
      simp only [Option.some.injEq, Prod.mk.injEq] at heq
      exact Or.inl ⟨by rw [heq.1, heq.2.1], ha⟩
    · rintro (⟨heq, ha⟩ | ⟨h, -⟩)
      · cases heq
        exact ⟨ha, by rw [ha]; rfl⟩
      · exact absurd h hleaves
  | none =>
    by_cases hack : op = .acknowledge key
    · subst hack
      rw [get_of_acknowledge]
      constructor
      · rintro ⟨-, heq⟩
        rw [Option.map_map] at heq
        obtain ⟨r, -, hs⟩ := Option.map_eq_some_iff.mp heq
        cases congrArg (fun x => x.2.2) hs
      · rintro (⟨heq, -⟩ | ⟨h, -⟩)
        · cases heq
        · exact absurd rfl h.2
    · have hleaves : Leaves t key op := ⟨he, hack⟩
      have hsame : ((step t op).1.get key).map shown = some (state, sinceMs, false) ↔
          (t.get key).map shown = some (state, sinceMs, false) := by
        rcases get_of_leaves hleaves with heq | ⟨hnone, r, hr, hu⟩
        · rw [heq]
        · rw [hr, hnone, Option.map_some, shown, hu]
          simp
      rw [hsame]
      simp [hleaves]

/-- Only an alerting state is unacknowledged. -/
theorem alerting_step (h : ∀ r, t.get key = some r → r.acknowledged = false → isAlerting r.state)
    (r : AgentRecord) (hr : (step t op).1.get key = some r) (hu : r.acknowledged = false) :
    isAlerting r.state := by
  cases he : entered t key op with
  | some entry =>
    obtain ⟨state', sinceMs'⟩ := entry
    obtain ⟨r', hr', hs⟩ := get_of_entered he
    cases hr.symm.trans hr'
    simp only [shown, Prod.mk.injEq] at hs
    rw [hs.1]
    simpa [hu] using hs.2.2
  | none =>
    by_cases hack : op = .acknowledge key
    · subst hack
      rw [get_of_acknowledge] at hr
      obtain ⟨r', -, rfl⟩ := Option.map_eq_some_iff.mp hr
      cases hu
    · rcases get_of_leaves ⟨he, hack⟩ with heq | ⟨-, r', hr', hu'⟩
      · rw [hr, Option.map_some] at heq
        obtain ⟨r', hr', hs⟩ := Option.map_eq_some_iff.mp heq.symm
        simp only [shown, Prod.mk.injEq] at hs
        rw [← hs.1]
        exact h r' hr' (hs.2.2.trans hu)
      · cases hr.symm.trans hr'
        rw [hu] at hu'
        cases hu'

end Steps

section Runs

theorem unseen_concat : Unseen cfg (ops ++ [op]) key state sinceMs ↔
    entered (tracker cfg ops) key op = some (state, sinceMs) ∧ isAlerting state = true ∨
      Leaves (tracker cfg ops) key op ∧ Unseen cfg ops key state sinceMs := by
  constructor
  · rintro ⟨pre, op', post, heq, he, ha, hlater⟩
    rcases Log.concat_eq_cut.mp heq with ⟨mid, rfl, rfl⟩ | ⟨rfl, rfl, rfl⟩
    · refine Or.inr ⟨hlater mid op [] rfl, pre, op', mid, rfl, he, ha, ?_⟩
      rintro mid' op'' rest rfl
      exact hlater mid' op'' (rest ++ [op]) (by simp)
    · exact Or.inl ⟨he, ha⟩
  · rintro (⟨he, ha⟩ | ⟨hop, pre, op', post, rfl, he, ha, hlater⟩)
    · exact ⟨ops, op, [], rfl, he, ha, fun mid op' rest h => by simp at h⟩
    · refine ⟨pre, op', post ++ [op], by simp, he, ha, fun mid op'' rest heq => ?_⟩
      rcases Log.concat_eq_cut.mp heq with ⟨mid', rfl, -⟩ | ⟨rfl, rfl, -⟩
      · exact hlater mid op'' mid' rfl
      · exact hop

/-- An agent has an unseen alert exactly when its calls left one. -/
theorem shows_iff_unseen :
    Shows (tracker cfg ops) key state sinceMs ↔ Unseen cfg ops key state sinceMs := by
  induction ops using List.reverseRecOn with
  | nil =>
    constructor
    · rintro ⟨r, hr, -⟩
      simp [tracker] at hr
    · rintro ⟨pre, op, post, heq, -⟩
      simp at heq
  | append_singleton ops op ih => rw [tracker_concat, shows_step, unseen_concat, ih]

theorem alerting_of_unacknowledged (ops : List TrackerOp) (key : AgentKey) :
    ∀ r, (tracker cfg ops).get key = some r → r.acknowledged = false → isAlerting r.state := by
  induction ops using List.reverseRecOn with
  | nil =>
    intro r hr
    simp [tracker] at hr
  | append_singleton ops op ih =>
    rw [tracker_concat]
    exact alerting_step ih

end Runs

section Order

variable {a b : AgentRecord}

/-- The order in which pending records are sorted. -/
def pendingCmp : AgentRecord → AgentRecord → Ordering :=
  let rank (r : AgentRecord) : ℕ := if r.state = .needsInput then 0 else 1
  compareLex (compareOn rank)
    (compareLex (compareOn AgentRecord.sinceMs) (compareOn AgentRecord.key))

instance : TransCmp pendingCmp :=
  inferInstanceAs (TransCmp (compareLex (compareOn _) (compareLex (compareOn _) (compareOn _))))

theorem pendingLE_eq (a b : AgentRecord) : Tracker.pendingLE a b = (pendingCmp a b).isLE := rfl

theorem compareLex_lt_iff {α : Type} {c d : α → α → Ordering} {a b : α} :
    compareLex c d a b = .lt ↔ c a b = .lt ∨ c a b = .eq ∧ d a b = .lt :=
  Ordering.then_eq_lt

theorem key_eq_of_eq (h : pendingCmp a b = .eq) : a.key = b.key :=
  compareOn_eq_iff.mp (compareLex_eq_iff.mp (compareLex_eq_iff.mp h).2).2

theorem key_lt_iff {a b : AgentKey} : compare a b = .lt ↔ KeyBefore a b := by
  show compareLex _ (compareLex _ _) a b = .lt ↔ _
  simp only [compareLex_lt_iff, compareOn, compare_lt_iff_lt, LawfulEqCmp.compare_eq_iff_eq,
    KeyBefore]

/-- Two alerting records of different agents are in one order. -/
theorem before_of_le (ha : isAlerting a.state) (hb : isAlerting b.state) (hk : a.key ≠ b.key)
    (hle : Tracker.pendingLE a b) : Before a b := by
  have hlt : pendingCmp a b = .lt := by
    rw [pendingLE_eq, Ordering.isLE_iff_eq_lt_or_eq_eq] at hle
    exact hle.resolve_right fun heq => hk (key_eq_of_eq heq)
  simp only [pendingCmp, compareLex_lt_iff, compareOn, compare_lt_iff_lt, key_lt_iff,
    LawfulEqCmp.compare_eq_iff_eq] at hlt
  unfold Before
  cases hsa : a.state <;> simp [isAlerting, hsa] at ha <;>
    cases hsb : b.state <;> simp [isAlerting, hsb] at hb <;> simp_all

theorem pairwise_mergeSort (l : List AgentRecord) :
    (l.mergeSort Tracker.pendingLE).Pairwise (Tracker.pendingLE · ·) := by
  refine List.pairwise_mergeSort (fun a b c => ?_) (fun a b => ?_) l
  · simp only [pendingLE_eq]
    exact TransCmp.isLE_trans
  · have hswap : pendingCmp b a = (pendingCmp a b).swap := OrientedCmp.eq_swap
    rw [pendingLE_eq, pendingLE_eq, hswap]
    cases pendingCmp a b <;> rfl

/-- Sorting does not depend on the order before. -/
theorem mergeSort_eq_of_perm {l l' : List AgentRecord} (hp : l.Perm l')
    (hn : (l.map AgentRecord.key).Nodup) :
    l.mergeSort Tracker.pendingLE = l'.mergeSort Tracker.pendingLE := by
  have hperm : (l.mergeSort Tracker.pendingLE).Perm (l'.mergeSort Tracker.pendingLE) :=
    (List.mergeSort_perm ..).trans (hp.trans (List.mergeSort_perm ..).symm)
  refine List.Perm.eq_of_pairwise (fun a b ha hb hab hba => ?_) (pairwise_mergeSort l)
    (pairwise_mergeSort l') hperm
  have hkey : a.key = b.key := by
    rw [pendingLE_eq] at hab hba
    exact key_eq_of_eq (OrientedCmp.isLE_antisymm hab hba)
  rw [List.mem_mergeSort] at ha hb
  exact List.inj_on_of_nodup_map hn ha (hp.mem_iff.mpr hb) hkey

theorem nodup_pending (t : Tracker) : (t.pending.map AgentRecord.key).Nodup := by
  have hperm : (t.pending.map AgentRecord.key).Perm
      ((t.records.filter fun r => isAlerting r.state && !r.acknowledged).map AgentRecord.key) :=
    (List.mergeSort_perm ..).map _
  rw [hperm.nodup_iff]
  exact t.nodup_records_key.sublist (List.filter_sublist.map _)

theorem pairwise_pending (t : Tracker) : t.pending.Pairwise Before := by
  have hsorted : t.pending.Pairwise (Tracker.pendingLE · ·) := pairwise_mergeSort ..
  have hkeys : t.pending.Pairwise fun a b => a.key ≠ b.key :=
    List.pairwise_map.mp (nodup_pending t)
  refine (hsorted.and hkeys).imp_of_mem fun ha hb h => ?_
  exact before_of_le (Tracker.mem_pending.mp ha).2.1 (Tracker.mem_pending.mp hb).2.1 h.2 h.1

end Order

/-- The pending agents are those with an unseen alert, each listed once and with the time of
the call that entered its state, in an order that does not depend on how records are kept. -/
theorem pending_unseen (cfg : TrackerConfig) (ops : List TrackerOp) :
    let t := tracker cfg ops
    (∀ key, key ∈ t.pending.map AgentRecord.key ↔
      ∃ state sinceMs, Unseen cfg ops key state sinceMs) ∧
    (∀ r ∈ t.pending, t.get r.key = some r ∧ Unseen cfg ops r.key r.state r.sinceMs) ∧
    (∀ key r, t.get key = some r → r.acknowledged = false → isAlerting r.state) ∧
    (t.pending.map AgentRecord.key).Nodup ∧ t.pending.Pairwise Before ∧
    ∀ rs : List AgentRecord, rs.Perm t.records →
      (rs.filter fun r => isAlerting r.state && !r.acknowledged).mergeSort Tracker.pendingLE =
        t.pending := by
  intro t
  have hpending : ∀ r ∈ t.pending, t.get r.key = some r ∧
      Unseen cfg ops r.key r.state r.sinceMs := by
    intro r hr
    obtain ⟨hget, ha, hu⟩ := Tracker.mem_pending.mp hr
    exact ⟨hget, shows_iff_unseen.mp ⟨r, hget, rfl, rfl, ha, hu⟩⟩
  refine ⟨fun key => ?_, hpending, fun key r => alerting_of_unacknowledged ops key r,
    nodup_pending t, pairwise_pending t, fun rs hp => ?_⟩
  · constructor
    · intro hmem
      obtain ⟨r, hr, rfl⟩ := List.mem_map.mp hmem
      exact ⟨r.state, r.sinceMs, (hpending r hr).2⟩
    · rintro ⟨state, sinceMs, h⟩
      obtain ⟨r, hget, -, -, ha, hu⟩ := shows_iff_unseen.mpr h
      obtain rfl := t.keyed key r hget
      exact List.mem_map_of_mem (Tracker.mem_pending.mpr ⟨hget, ha, hu⟩)
  · refine mergeSort_eq_of_perm (hp.filter _) ?_
    exact ((hp.map _).nodup_iff.mpr t.nodup_records_key).sublist (List.filter_sublist.map _)

end Pending

end MultiAi
