import MultiAi.Terms.Trouble

/-! # Attached and detached in turn

The owner of a terminal hears that it is attached and that it is detached in turn, unless the
connection is given up while a terminal is detached already.
-/

namespace MultiAi.Terms

open Std

/-- Every detach follows an attach, and every attach but the first one a detach, with none of
their own kind in between. -/
structure Alternate (events : List TermEvent) : Prop where
  detached : ∀ pre reason post, events = pre ++ .detached reason :: post →
    ∃ before between, pre = before ++ .attached :: between ∧
      ∀ reason, .detached reason ∉ between
  attached : ∀ pre post, events = pre ++ .attached :: post → .attached ∈ pre →
    ∃ before reason between, pre = before ++ .detached reason :: between ∧ .attached ∉ between

section Failing

/-- The task as it is when an attach of the list has failed. -/
def attachAllFailed (s : Terms) : List ℕ → Option Terms
  | [] => none
  | id :: ids =>
    match s.slot id with
    | none => attachAllFailed s ids
    | some slot =>
      match s.attach id (slot.generation + 1) slot.spec with
      | (_, none) => none
      | (s, some (.ok p)) => attachAllFailed (s.reattached id (slot.generation + 1) p) ids
      | (s, some (.error _)) => some s

def reconnectFailed (s : Terms) (order : List ℕ → List ℕ) : Option Terms :=
  match s.connect with
  | (s, some (.ok ())) => s.attachAllFailed (order s.slots.keys)
  | _ => none

def openFailed (s : Terms) (order : List ℕ → List ℕ) : Option Terms :=
  match s.link with
  | .down .. => s.reconnectFailed order
  | _ => none

/-- The channel of a terminal has ended, and it could not attach again. -/
def channelFailed (s : Terms) (id : ℕ) (slot : Slot) : Option Terms :=
  if s.endsNow slot < maxQuickEnds then
    match ((s.setSlot id { slot with pty := none, quickEnds := s.endsNow slot }).note
      (.owner id (.detached "terminal channel closed"))).attach id (slot.generation + 1)
        slot.spec with
    | (s, some (.error _)) => some s
    | _ => none
  else none

def bodyFailed (s : Terms) (turn : Turn) : Option Terms :=
  match s.pending with
  | _ :: pending => { s with pending := pending }.openFailed turn.order
  | [] =>
    match turn.wake with
    | .command (some (.open spec reply)) =>
      (s.note (.handled (.open spec reply))).openFailed turn.order
    | .command (some .retry) => (s.note (.handled .retry)).openFailed turn.order
    | .command _ => none
    | .output id generation none alive =>
      match s.slot id with
      | some slot =>
        if slot.generation = generation ∧ slot.pty.isSome ∧ s.link = .up ∧ alive then
          s.channelFailed id slot
        else none
      | none => none
    | .output .. => none
    | .timer => if s.retryAt.any (· ≤ s.now) then s.reconnectFailed turn.order else none

/-- The task as it is when in a turn a terminal could not attach again. -/
def failedIn (s : Terms) (turn : Turn) : Option Terms :=
  if s.ended then none else (s.awake turn).bodyFailed turn

end Failing

/-- What an event says of the terminal: that it is attached, or that it is not. -/
def told : TermEvent → Option (Option Bool)
  | .attached => some (some true)
  | .detached _ => some (some false)
  | .output _ | .exited _ => none

/-- What the owner was told last. -/
def phase (events : List TermEvent) : Option Bool := Log.latest told none events

section Events

variable {events : List TermEvent} {e : TermEvent} {reason : String}

theorem phase_concat (e : TermEvent) :
    phase (events ++ [e]) = (told e).getD (phase events) := Log.latest_concat e

theorem told_attached_iff : told e = some (some true) ↔ e = .attached := by
  cases e <;> simp [told]

theorem told_detached_iff : told e = some (some false) ↔ ∃ reason, e = .detached reason := by
  cases e <;> simp [told]

theorem phase_ne_none (h : .attached ∈ events) : phase events ≠ none := by
  induction events using List.reverseRecOn with
  | nil => cases h
  | append_singleton events e ih =>
    rw [phase_concat]
    rcases List.mem_append.mp h with hold | hnew
    · cases e with
      | attached => nofun
      | detached => nofun
      | output d => exact ih hold
      | exited status => exact ih hold
    · rw [← List.mem_singleton.mp hnew]
      nofun

theorem phase_attached {before between : List TermEvent}
    (h : ∀ reason, .detached reason ∉ between) :
    phase (before ++ .attached :: between) = some true := by
  induction between using List.reverseRecOn with
  | nil => exact phase_concat _
  | append_singleton between e ih =>
    have hold := ih fun reason hm => h reason (List.mem_append_left _ hm)
    rw [← List.cons_append, ← List.append_assoc, phase_concat, hold]
    cases e with
    | detached reason => exact absurd List.mem_concat_self (h reason)
    | _ => rfl

theorem alternate_nil : Alternate [] := ⟨by simp, by simp⟩

theorem Alternate.detach (h : Alternate events) (hp : phase events = some true)
    (reason : String) : Alternate (events ++ [.detached reason]) := by
  constructor
  · intro pre reason' post hcut
    rcases Log.concat_eq_cut.mp hcut with ⟨mid, hold, -⟩ | ⟨rfl, -, -⟩
    · exact h.detached pre reason' mid hold
    · obtain ⟨before, e, between, rfl, he, hbetween⟩ :=
        Log.exists_cut_of_latest (show Log.latest told none pre = some true from hp) nofun
      obtain rfl := told_attached_iff.mp he
      exact ⟨before, between, rfl, fun r hr => by cases hbetween _ hr⟩
  · intro pre post hcut
    rcases Log.concat_eq_cut.mp hcut with ⟨mid, hold, -⟩ | ⟨-, he, -⟩
    · exact h.attached pre mid hold
    · cases he

theorem Alternate.phase_of_detach (h : Alternate (events ++ [.detached reason])) :
    phase events = some true := by
  obtain ⟨before, between, rfl, hbetween⟩ := h.detached events reason [] rfl
  exact phase_attached hbetween

theorem Alternate.attach (h : Alternate events) (hp : phase events ≠ some true) :
    Alternate (events ++ [.attached]) := by
  constructor
  · intro pre reason post hcut
    rcases Log.concat_eq_cut.mp hcut with ⟨mid, hold, -⟩ | ⟨-, he, -⟩
    · exact h.detached pre reason mid hold
    · cases he
  · intro pre post hcut hpre
    rcases Log.concat_eq_cut.mp hcut with ⟨mid, hold, -⟩ | ⟨rfl, -, -⟩
    · exact h.attached pre mid hold hpre
    · have hfalse : phase pre = some false := by
        have hne := phase_ne_none hpre
        revert hp hne
        cases phase pre with
        | none => simp
        | some b => cases b <;> simp
      obtain ⟨before, e, between, rfl, he, hbetween⟩ :=
        Log.exists_cut_of_latest (show Log.latest told none pre = some false from hfalse) nofun
      obtain ⟨reason, rfl⟩ := told_detached_iff.mp he
      exact ⟨before, reason, between, rfl, fun hm => by cases hbetween _ hm⟩

theorem Alternate.other (h : Alternate events) (he : told e = none) :
    Alternate (events ++ [e]) := by
  constructor
  · intro pre reason post hcut
    rcases Log.concat_eq_cut.mp hcut with ⟨mid, hold, -⟩ | ⟨-, rfl, -⟩
    · exact h.detached pre reason mid hold
    · cases he
  · intro pre post hcut
    rcases Log.concat_eq_cut.mp hcut with ⟨mid, hold, -⟩ | ⟨-, rfl, -⟩
    · exact h.attached pre mid hold
    · cases he

end Events

section Told

variable {s s' s'' : Terms} {id : ℕ} {slot : Slot}

/-- What owners are told is that their terminals are attached and detached in turn, and last of
all how each of them is now. -/
structure Told (s : Terms) : Prop where
  alternate : ∀ id, Alternate (owned s.log id)
  slots : ∀ id slot, s.slot id = some slot → phase (owned s.log id) = some slot.pty.isSome
  fresh : ∀ id, s.nextId ≤ id → owned s.log id = []

/-- No owner is told anything, and no terminal is attached or detached. -/
structure Quiet (s s' : Terms) : Prop where
  owned : ∀ id, owned s'.log id = owned s.log id
  nextId : s'.nextId = s.nextId
  slots : ∀ id slot', s'.slot id = some slot' →
    ∃ slot, s.slot id = some slot ∧ slot'.pty = slot.pty

theorem Quiet.refl (s : Terms) : Quiet s s :=
  ⟨fun _ => rfl, rfl, fun _ slot hs => ⟨slot, hs, rfl⟩⟩

theorem Quiet.trans (h : Quiet s s') (h' : Quiet s' s'') : Quiet s s'' := by
  constructor
  · exact fun id => (h'.owned id).trans (h.owned id)
  · exact h'.nextId.trans h.nextId
  · intro id slot'' hs
    obtain ⟨slot', hs', hp'⟩ := h'.slots id slot'' hs
    obtain ⟨slot, hs, hp⟩ := h.slots id slot' hs'
    exact ⟨slot, hs, hp'.trans hp⟩

/-- What matters is the log, the next id and the PTYs of the terminals. -/
theorem Quiet.of_log {add : List TermEffect} (hlog : s'.log = s.log ++ add)
    (hadd : ∀ id e, .owner id e ∉ add) (hnext : s'.nextId = s.nextId)
    (hslots : ∀ id slot', s'.slot id = some slot' →
      ∃ slot, s.slot id = some slot ∧ slot'.pty = slot.pty) : Quiet s s' := by
  constructor
  · intro id
    rw [hlog, owned_append, owned_eq_nil_iff.mpr (hadd id), List.append_nil]
  · exact hnext
  · exact hslots

theorem Quiet.same (hlog : s'.log = s.log) (hnext : s'.nextId = s.nextId)
    (hslots : s'.slots = s.slots) : Quiet s s' := by
  refine .of_log (hlog.trans (List.append_nil _).symm) nofun hnext fun id slot hs => ⟨slot, ?_, rfl⟩
  rwa [Terms.slot, ← hslots]

theorem Quiet.note {e : TermEffect} (h : Quiet s s') (he : ∀ id ev, e ≠ .owner id ev) :
    Quiet s (s'.note e) :=
  h.trans (.of_log rfl (fun id ev hm => he id ev (List.mem_singleton.mp hm).symm) rfl
    fun _ slot hs => ⟨slot, hs, rfl⟩)

theorem Quiet.doLocal (s : Terms) (cmd : TermCmd) : Quiet s (s.doLocal cmd) := by
  have hc := handles_doLocal s cmd
  obtain ⟨sent, hlog, hsent, -⟩ := hc.log
  refine .of_log hlog (fun id e hm => ?_) hc.nextId fun id slot' hs => ?_
  · rcases List.mem_cons.mp hm with heq | hm
    · cases heq
    · obtain ⟨p, msg, heq⟩ := hsent _ hm
      cases heq
  · obtain ⟨slot, hs, hsame⟩ := hc.found id slot' hs
    exact ⟨slot, hs, hsame.pty⟩

theorem Quiet.await (s : Terms) : Quiet s s.await.1 :=
  await_induct (P := Quiet s) (fun t cmd h => h.trans (.doLocal t cmd))
    (fun _ _ _ h => h.trans (.same rfl rfl rfl)) (.refl s)

theorem Quiet.idleIfEmpty (h : Quiet s s') : Quiet s s'.idleIfEmpty := by
  unfold Terms.idleIfEmpty
  split_ifs
  · exact .note (h.trans (.same rfl rfl rfl)) (by nofun)
  · exact h

theorem Quiet.down (h : Quiet s s') (reason : String) : Quiet s (s'.down reason) := by
  unfold Terms.down
  simp only
  split_ifs
  · exact .idleIfEmpty (h.trans (.same rfl rfl rfl))
  · exact .note (h.trans (.same rfl rfl rfl)) (by nofun)

theorem Quiet.attach (s : Terms) (id generation : ℕ) (spec : AttachSpec) :
    Quiet s (s.attach id generation spec).1 := by
  unfold Terms.attach
  cases s.link with
  | up =>
    have hstart : Quiet s ({ s with link := .busy }.note (.attach id spec s.zellijPath)) :=
      .note (.same rfl rfl rfl) (by nofun)
    have hawait := hstart.trans (.await _)
    simp only
    rcases ha : ({ s with link := .busy }.note (.attach id spec s.zellijPath)).await with
      ⟨t, _ | e | _⟩ <;> rw [ha] at hawait ⊢
    · exact hawait
    · exact hawait.trans (.same rfl rfl rfl)
    · exact .note (hawait.trans (.same rfl rfl rfl)) (by nofun)
  | _ => exact .refl s

theorem Quiet.connect (s : Terms) : Quiet s s.connect.1 := by
  have hstart : Quiet s (s.note .openTerminals) := .note (.refl s) (by nofun)
  have hawait := hstart.trans (.await _)
  unfold Terms.connect
  rcases ha : (s.note .openTerminals).await with ⟨t, _ | e | _⟩ <;> rw [ha] at hawait
  · exact hawait
  · exact hawait
  · exact .note (hawait.trans (.same rfl rfl rfl)) (by nofun)

theorem Quiet.connectIdle (s : Terms) : Quiet s s.connectIdle.1 := by
  have hconnect := Quiet.connect s
  unfold Terms.connectIdle
  rcases hc : s.connect with ⟨t, _ | e | _⟩ <;> rw [hc] at hconnect
  · exact hconnect
  · exact .note (hconnect.trans (.same rfl rfl rfl)) (by nofun)
  · exact hconnect

theorem Quiet.closeAll (s : Terms) : Quiet s s.closeAll := by
  refine .of_log rfl (fun id e hm => ?_) rfl fun id slot hs => ⟨slot, hs, rfl⟩
  obtain ⟨⟨id', slot⟩, -, heq⟩ := List.mem_filterMap.mp hm
  obtain ⟨p, -, heq⟩ := Option.map_eq_some_iff.mp heq
  cases heq

theorem Told.quiet (h : Told s) (hq : Quiet s s') : Told s' := by
  constructor
  · exact fun id => hq.owned id ▸ h.alternate id
  · intro id slot' hs
    obtain ⟨slot, hs, hp⟩ := hq.slots id slot' hs
    rw [hq.owned, hp]
    exact h.slots id slot hs
  · intro id hid
    rw [hq.owned]
    exact h.fresh id (hq.nextId ▸ hid)

theorem told_init (cfg : HostConfig) : Told (init cfg) := by
  constructor
  · exact fun _ => alternate_nil
  · intro id slot hs
    cases (slot_init id cfg).symm.trans hs
  · exact fun _ _ => rfl

theorem Told.lt_of_slot (h : Told s) (hs : s.slot id = some slot) : id < s.nextId := by
  by_contra hid
  have hphase := h.slots id slot hs
  rw [h.fresh id (Nat.le_of_not_lt hid)] at hphase
  cases hphase

theorem owned_note (id : ℕ) (e : TermEvent) (id' : ℕ) :
    owned (s.note (.owner id e)).log id' =
      if id = id' then owned s.log id' ++ [e] else owned s.log id' := by
  have hlog : (s.note (.owner id e)).log = s.log ++ [.owner id e] := rfl
  rw [hlog, owned_append]
  split_ifs with h
  · simp [owned, h]
  · simp [owned, h]

/-- The owner of one terminal is told something, and the terminal changes or goes. -/
theorem Told.tells {e : TermEvent} (h : Told s) (hid : id < s.nextId)
    (halternate : Alternate (owned s.log id ++ [e]))
    (hlog : s'.log = (s.note (.owner id e)).log) (hnext : s'.nextId = s.nextId)
    (hothers : ∀ id', id ≠ id' → s'.slot id' = s.slot id')
    (hslot : ∀ slot, s'.slot id = some slot →
      phase (owned s.log id ++ [e]) = some slot.pty.isSome) : Told s' := by
  constructor
  · intro id'
    rw [hlog, owned_note]
    split_ifs with he
    · exact he ▸ halternate
    · exact h.alternate id'
  · intro id' slot hs
    rw [hlog, owned_note]
    split_ifs with he
    · subst he
      exact hslot slot hs
    · exact h.slots id' slot ((hothers id' he).symm.trans hs)
  · intro id' hid'
    have hne : id ≠ id' := by omega
    rw [hlog, owned_note, if_neg hne]
    exact h.fresh id' (hnext ▸ hid')

end Told

section Functions

variable {s s' : Terms} {id : ℕ} {slot : Slot} {order : List ℕ → List ℕ}

theorem owned_map (e : TermEvent) {ids : List ℕ} (h : ids.Nodup) (id : ℕ) :
    owned (ids.map (TermEffect.owner · e)) id = if id ∈ ids then [e] else [] := by
  induction ids with
  | nil => rfl
  | cons i ids ih =>
    obtain ⟨hi, hids⟩ := List.nodup_cons.mp h
    have hcons : owned ((i :: ids).map (TermEffect.owner · e)) id =
        owned [.owner i e] id ++ owned (ids.map (TermEffect.owner · e)) id :=
      (owned_append : owned ([.owner i e] ++ _) id = _)
    rw [hcons, ih hids]
    by_cases he : i = id
    · subst he
      simp [owned, hi]
    · simp [owned, he, Ne.symm he]

theorem owned_detaches (s : Terms) (reason : String) (id : ℕ) :
    owned (s.log ++ s.slots.keys.map (TermEffect.owner · (.detached reason))) id =
      if (s.slot id).isSome then owned s.log id ++ [.detached reason] else owned s.log id := by
  simp only [owned_append, owned_map _ ExtTreeMap.nodup_keys, mem_keys]
  split_ifs
  · rfl
  · exact List.append_nil _

/-- After every terminal was told that it is detached, the connection goes down. -/
theorem Quiet.lost (s : Terms) (reason : String) : Quiet { s with
    slots := s.slots.map fun _ => Slot.detach
    log := s.log ++ s.slots.keys.map (TermEffect.owner · (.detached reason)) }
    (s.lost reason) := by
  unfold Terms.lost
  refine Quiet.down ?_ reason
  exact .same rfl rfl rfl

/-- A terminal that is detached already is told so once more. -/
theorem Told.lost_twice (h : Told s) (hs : s.slot id = some slot) (hp : slot.pty = none)
    (reason : String) : ¬Alternate (owned (s.lost reason).log id) := by
  intro halternate
  rw [(Quiet.lost s reason).owned, owned_detaches, if_pos (by simp [hs])] at halternate
  have hphase := halternate.phase_of_detach
  rw [h.slots id slot hs, hp] at hphase
  cases hphase

/-- Every terminal is told that it is detached, and none of them was. -/
theorem Told.lost (h : Told s) (hall : s.AllAttached) (reason : String) :
    Told (s.lost reason) := by
  refine Told.quiet ?_ (.lost s reason)
  constructor
  · intro id
    rw [owned_detaches]
    split_ifs with hs
    · obtain ⟨slot, hs⟩ := Option.isSome_iff_exists.mp hs
      refine (h.alternate id).detach ?_ reason
      rw [h.slots id slot hs, hall id slot hs]
    · exact h.alternate id
  · intro id slot' hs'
    obtain ⟨slot, hs, rfl⟩ := slot_map_detach (s := s) rfl hs'
    rw [owned_detaches, if_pos (by simp [hs]), phase_concat]
    rfl
  · intro id hid
    have hnone : s.slot id = none := by
      cases hs : s.slot id with
      | none => rfl
      | some slot => exact absurd (h.lt_of_slot hs) (Nat.not_lt_of_le hid)
    rw [owned_detaches, if_neg (by simp [hnone])]
    exact h.fresh id hid

/-- A terminal that is detached attaches again, unless it is gone. -/
theorem Told.reattached (h : Told s) (hd : ∀ slot, s.slot id = some slot → slot.pty = none)
    (generation p : ℕ) : Told (s.reattached id generation p) := by
  unfold Terms.reattached
  cases hs : s.slot id with
  | none => exact h.quiet (.note (.refl s) (by nofun))
  | some slot =>
    have hphase : phase (owned s.log id) = some false := by
      rw [h.slots id slot hs, hd slot hs]
      rfl
    refine h.tells (h.lt_of_slot hs) ((h.alternate id).attach (by rw [hphase]; nofun)) rfl rfl
      (fun id' he => ?_) fun slot' hs' => ?_
    · rw [slot_note, slot_setSlot, if_neg he]
    · rw [slot_note, slot_setSlot, if_pos rfl] at hs'
      cases hs'
      rw [phase_concat]
      rfl

/-- What a function comes to: it tells the owners in turn, or ends with the connection lost after
an attach failed. -/
def Ends (failed : Option Terms) (result : Terms × Bool) : Prop :=
  match failed with
  | none => Told result.1
  | some t => Told t ∧ ∃ reason, result = (t.lost reason, true)

theorem Ends.told {failed : Option Terms} {result : Terms × Bool} (h : Ends failed result)
    (hf : ∀ t, failed = some t → t.AllAttached) : Told result.1 := by
  cases failed with
  | none => exact h
  | some t =>
    obtain ⟨ht, reason, rfl⟩ := h
    exact ht.lost (hf t rfl) reason

/-- The terminals of a list are detached. -/
def DetachedOf (s : Terms) (ids : List ℕ) : Prop :=
  ∀ id ∈ ids, ∀ slot, s.slot id = some slot → slot.pty = none

theorem DetachedOf.quiet {ids : List ℕ} (h : s.DetachedOf ids) (hq : Quiet s s') :
    s'.DetachedOf ids := by
  intro id hid slot' hs'
  obtain ⟨slot, hs, hp⟩ := hq.slots id slot' hs'
  exact hp.trans (h id hid slot hs)

theorem slot_reattached_of_ne {id' generation p : ℕ} (he : id ≠ id') :
    (s.reattached id generation p).slot id' = s.slot id' := by
  unfold Terms.reattached
  cases s.slot id with
  | none => rfl
  | some slot => simp only [slot_note, slot_setSlot, if_neg he]

theorem Ends.attachAll {ids : List ℕ} (h : Told s) (hn : ids.Nodup) (hd : s.DetachedOf ids) :
    Ends (s.attachAllFailed ids) (s.attachAll ids) := by
  induction ids generalizing s with
  | nil => exact h.quiet (.idleIfEmpty (.refl s))
  | cons id ids ih =>
    obtain ⟨hid, hn⟩ := List.nodup_cons.mp hn
    have hrest : s.DetachedOf ids := fun id' hid' => hd id' (List.mem_cons_of_mem _ hid')
    unfold Terms.attachAll attachAllFailed
    cases hs : s.slot id with
    | none => exact ih h hn hrest
    | some slot =>
      have hq := Quiet.attach s id (slot.generation + 1) slot.spec
      simp only
      rcases ha : s.attach id (slot.generation + 1) slot.spec with ⟨t, _ | e | p⟩ <;>
        rw [ha] at hq
      · exact h.quiet hq
      · exact ⟨h.quiet hq, _, rfl⟩
      · have ht : Told (t.reattached id (slot.generation + 1) p) :=
          (h.quiet hq).reattached (hd.quiet hq id List.mem_cons_self) _ _
        refine ih ht hn fun id' hid' slot' hs' => ?_
        have hne : id ≠ id' := fun he => hid (he ▸ hid')
        rw [slot_reattached_of_ne hne] at hs'
        exact hrest.quiet hq id' hid' slot' hs'

theorem Ends.reconnect (h : Told s) (ho : ∀ ids, (order ids).Perm ids) (hd : s.AllDetached) :
    Ends (s.reconnectFailed order) (s.reconnect order) := by
  have hq := Quiet.connect s
  unfold Terms.reconnect reconnectFailed
  rcases hc : s.connect with ⟨t, _ | (reason | p) | _⟩ <;> rw [hc] at hq
  · exact h.quiet hq
  · exact h.quiet (hq.down reason)
  · simp only
    split_ifs
    · exact h.quiet (.idleIfEmpty (hq.trans (.same rfl rfl rfl)))
    · exact h.quiet (.note (hq.trans (.same rfl rfl rfl)) (by nofun))
  · refine Ends.attachAll (h.quiet hq) ((ho _).nodup_iff.mpr ExtTreeMap.nodup_keys) ?_
    intro id _ slot' hs'
    obtain ⟨slot, hs, hp⟩ := hq.slots id slot' hs'
    exact hp.trans (hd id slot hs)

/-- A connection that is lost while a terminal is there stays down. -/
theorem link_lost (hs : s.slot id = some slot) (reason : String) :
    ∃ retryAt e, (s.lost reason).link = .down retryAt e := by
  have hmap : (s.slots.map fun _ => Slot.detach).isEmpty = false := by
    rw [← Bool.not_eq_true, ExtTreeMap.isEmpty_iff]
    intro hempty
    have hget : (s.slots.map fun _ => Slot.detach)[id]? = some slot.detach := by
      rw [ExtTreeMap.getElem?_map]
      exact congrArg (Option.map Slot.detach) hs
    rw [hempty, ExtTreeMap.getElem?_empty] at hget
    cases hget
  unfold Terms.lost Terms.down
  simp only [hmap, Bool.false_eq_true, if_false]
  exact ⟨_, _, rfl⟩

theorem not_allAttached (h : ¬s.AllAttached) : ∃ id slot, s.slot id = some slot ∧
    slot.pty = none := by
  unfold AllAttached at h
  push Not at h
  obtain ⟨id, slot, hs, hp⟩ := h
  exact ⟨id, slot, hs, by simpa using hp⟩

/-- The connection a new terminal needs: it is not there when an attach failed while a terminal
was detached. -/
theorem openLink_ends (h : Told s) (ho : ∀ ids, (order ids).Perm ids) (hs : s.Shaped) :
    ((∀ t, s.openFailed order = some t → t.AllAttached) → Told (s.openLink order).1) ∧
      ∀ t, s.openFailed order = some t → ¬t.AllAttached →
        Told t ∧ ∃ reason e, s.openLink order = (t.lost reason, some (.error e)) := by
  unfold Terms.openLink openFailed
  cases hl : s.link with
  | idle => exact ⟨fun _ => h.quiet (.connectIdle s), nofun⟩
  | up => exact ⟨fun _ => h, nofun⟩
  | busy => exact ⟨fun _ => h, nofun⟩
  | down retryAt e =>
    have hends := Ends.reconnect h ho (hs.allDetached hl)
    simp only
    constructor
    · intro hf
      have ht := hends.told hf
      rcases hr : s.reconnect order with ⟨t, _ | _⟩ <;> rw [hr] at ht
      · exact ht
      · simp only
        cases t.link with
        | idle => exact ht.quiet (.connectIdle t)
        | _ => exact ht
    · intro t hfailed hnot
      rw [hfailed] at hends
      obtain ⟨ht, reason, hr⟩ := hends
      obtain ⟨id, slot, hslot, -⟩ := not_allAttached hnot
      obtain ⟨retryAt, e, hdown⟩ := link_lost hslot reason
      refine ⟨ht, reason, .open e, ?_⟩
      simp only [hr, hdown]

/-- A new terminal is attached for the first time. -/
theorem Told.attachNew (h : Told s) (spec : AttachSpec) :
    let u := ({ s with nextId := s.nextId + 1 }.note (.opening s.nextId spec)).attach s.nextId 0
      spec
    Told u.1 ∧ ∀ p, Told ((u.1.note (.owner s.nextId .attached)).setSlot s.nextId
      ⟨spec, some p, 0, u.1.now, 0⟩) := by
  intro u
  have hnone : owned s.log s.nextId = [] := h.fresh s.nextId (Nat.le_refl _)
  have hnext : Told { s with nextId := s.nextId + 1 } :=
    ⟨h.alternate, h.slots, fun id hid => h.fresh id (Nat.le_of_succ_le hid)⟩
  have hq : Quiet { s with nextId := s.nextId + 1 } u.1 :=
    Quiet.trans (.note (.refl _) (by nofun)) (.attach _ _ _ _)
  have hu : Told u.1 := hnext.quiet hq
  have howned : owned u.1.log s.nextId = [] := (hq.owned _).trans hnone
  constructor
  · exact hu
  · intro p
    refine hu.tells (hq.nextId ▸ Nat.lt_succ_self _) ((hu.alternate _).attach ?_) rfl rfl
      (fun id' he => ?_) fun slot hs => ?_
    · rw [howned]
      nofun
    · rw [slot_setSlot, if_neg he, slot_note]
    · rw [slot_setSlot, if_pos rfl] at hs
      cases hs
      rw [phase_concat]
      rfl

/-- What a turn comes to: the owners are told in turn, unless an attach fails while a terminal is
detached. -/
def Decides (failed : Option Terms) (result : Terms) : Prop :=
  ((∀ t, failed = some t → t.AllAttached) → Told result) ∧
    ∀ t, failed = some t → ¬t.AllAttached → ∃ id, ¬Alternate (owned result.log id)

theorem Decides.quiet {failed : Option Terms} (h : Decides failed s) (hq : Quiet s s') :
    Decides failed s' := by
  constructor
  · exact fun hf => (h.1 hf).quiet hq
  · intro t hfailed hnot
    obtain ⟨id, hid⟩ := h.2 t hfailed hnot
    exact ⟨id, by rwa [hq.owned]⟩

theorem Told.decides (h : Told s) : Decides none s := ⟨fun _ => h, nofun⟩

theorem Ends.decides {failed : Option Terms} {result : Terms × Bool} (h : Ends failed result) :
    Decides failed result.1 := by
  constructor
  · exact h.told
  · rintro t rfl hnot
    obtain ⟨ht, reason, rfl⟩ := h
    obtain ⟨id, slot, hs, hp⟩ := not_allAttached hnot
    exact ⟨id, ht.lost_twice hs hp reason⟩

theorem Decides.serveOpen (h : Told s) (spec : AttachSpec) (reply : ℕ)
    (ho : ∀ ids, (order ids).Perm ids) (hs : s.Shaped) :
    Decides (s.openFailed order) (s.serveOpen spec reply order).1 := by
  obtain ⟨htold, hlost⟩ := openLink_ends h ho hs
  unfold Terms.serveOpen Terms.openTerminal
  constructor
  · intro hf
    have ht := htold hf
    rcases hl : s.openLink order with ⟨t, _ | e | _⟩ <;> rw [hl] at ht
    · exact ht
    · exact ht.quiet (.note (.refl t) (by nofun))
    · obtain ⟨hu, hnew⟩ := ht.attachNew spec
      simp only
      rcases ha : ({ t with nextId := t.nextId + 1 }.note (.opening t.nextId spec)).attach
        t.nextId 0 spec with ⟨u, _ | e | p⟩ <;> rw [ha] at hu hnew ⊢
      · exact hu
      · exact hu.quiet (Quiet.note (.idleIfEmpty (.refl u)) (by nofun))
      · exact (hnew p).quiet (Quiet.note (.refl _) (by nofun))
  · intro t hfailed hnot
    obtain ⟨ht, reason, e, hl⟩ := hlost t hfailed hnot
    obtain ⟨id, slot, hslot, hp⟩ := not_allAttached hnot
    simp only [hl]
    have hreply : Quiet (t.lost reason) ((t.lost reason).note (.reply reply (.error e))) :=
      .note (.refl _) (by nofun)
    exact ⟨id, hreply.owned id ▸ ht.lost_twice hslot hp reason⟩

/-- A terminal of which nothing but an output or its end is told. -/
theorem Told.other {e : TermEvent} (h : Told s) (hs : s.slot id = some slot) (he : told e = none)
    (hlog : s'.log = (s.note (.owner id e)).log) (hnext : s'.nextId = s.nextId)
    (hothers : ∀ id', id ≠ id' → s'.slot id' = s.slot id')
    (hslot : s'.slot id = none ∨ s'.slot id = some slot) : Told s' := by
  refine h.tells (h.lt_of_slot hs) ((h.alternate id).other he) hlog hnext hothers
    fun slot' hs' => ?_
  rw [phase_concat, he, Option.getD_none]
  rcases hslot with hslot | hslot
  · rw [hslot] at hs'
    cases hs'
  · rw [hslot] at hs'
    cases hs'
    exact h.slots id slot hs

theorem Told.exits (h : Told s) (hs : s.slot id = some slot) (status : Option ℕ) :
    Told ((s.note (.owner id (.exited status))).dropSlot id).idleIfEmpty := by
  refine Told.quiet (s := (s.note (.owner id (.exited status))).dropSlot id) ?_
    (.idleIfEmpty (.refl _))
  refine h.other hs rfl rfl rfl (fun id' he => ?_) (.inl ?_)
  · rw [slot_dropSlot, if_neg he, slot_note]
  · rw [slot_dropSlot, if_pos rfl]

theorem Ends.channelEnded (h : Told s) (hs : s.slot id = some slot) (hp : slot.pty.isSome) :
    Ends (s.channelFailed id slot) (s.channelEnded id) := by
  have hq : (if s.now - slot.attachedAt < stableAfter then slot.quickEnds + 1 else 0) =
      s.endsNow slot := rfl
  unfold Terms.channelEnded channelFailed
  simp only [hs, hq]
  by_cases hmax : maxQuickEnds ≤ s.endsNow slot
  · rw [if_pos hmax, if_neg (Nat.not_lt_of_le hmax), dropSlot_setSlot]
    exact h.exits hs none
  · rw [if_neg hmax, if_pos (Nat.lt_of_not_le hmax)]
    have hclosed : Told ((s.setSlot id
        { slot with pty := none, quickEnds := s.endsNow slot }).note
          (.owner id (.detached "terminal channel closed"))) := by
      have hphase : phase (owned s.log id) = some true := by rw [h.slots id slot hs, hp]
      refine h.tells (h.lt_of_slot hs) ((h.alternate id).detach hphase _) rfl rfl
        (fun id' he => ?_) fun slot' hs' => ?_
      · rw [slot_note, slot_setSlot, if_neg he]
      · rw [slot_note, slot_setSlot, if_pos rfl] at hs'
        cases hs'
        rw [phase_concat]
        rfl
    have hdetached : DetachedOf ((s.setSlot id
        { slot with pty := none, quickEnds := s.endsNow slot }).note
          (.owner id (.detached "terminal channel closed"))) [id] := by
      intro id' hid slot' hs'
      obtain rfl := List.mem_singleton.mp hid
      rw [slot_note, slot_setSlot, if_pos rfl] at hs'
      cases hs'
      rfl
    generalize (s.setSlot id { slot with pty := none, quickEnds := s.endsNow slot }).note
      (.owner id (.detached "terminal channel closed")) = u at hclosed hdetached ⊢
    have hquiet := Quiet.attach u id (slot.generation + 1) slot.spec
    rcases ha : u.attach id (slot.generation + 1) slot.spec with ⟨t, _ | e | p⟩ <;>
      rw [ha] at hquiet
    · exact hclosed.quiet hquiet
    · exact ⟨hclosed.quiet hquiet, _, rfl⟩
    · have ht := (hclosed.quiet hquiet).reattached
        (hdetached.quiet hquiet id List.mem_cons_self) (slot.generation + 1) p
      exact ht.quiet (.idleIfEmpty (.refl _))

end Functions

section Turns

variable {s : Terms} {order : List ℕ → List ℕ}

/-- Where a terminal is attached at the top of the loop, all of them are. -/
theorem Shaped.allAttached {id : ℕ} {slot : Slot} (hs : s.Shaped) (hslot : s.slot id = some slot)
    (hpty : slot.pty.isSome) : s.AllAttached := by
  obtain ⟨sh, hsh⟩ := hs
  cases sh with
  | idle => exact absurd hslot (by simp [(slots_eq_empty_iff s).mp hsh.2.1 id])
  | up => exact hsh.2.2.1
  | down =>
    rw [hsh.2.2.1 id slot hslot] at hpty
    cases hpty

theorem Told.output {id generation : ℕ} {out : Option PtyOut} {alive : Bool} (h : Told s)
    (hs : s.Shaped)
    (hquiet : ¬(out = none ∧ s.link = .up ∧ alive = true ∧ ∃ slot, s.slot id = some slot ∧
      slot.generation = generation ∧ slot.pty.isSome)) :
    Told (s.output id generation out alive).1 := by
  unfold Terms.output
  cases hslot : s.slot id with
  | none => exact h
  | some slot =>
    simp only
    by_cases hg : (slot.generation ≠ generation || slot.pty.isNone) = true
    · rw [if_pos hg]
      exact h
    · rw [if_neg hg]
      simp only [Bool.or_eq_true, decide_eq_true_eq, not_or, Bool.not_eq_true, ne_eq, not_not,
        Option.isNone_eq_false_iff] at hg
      obtain ⟨hgen, hpty⟩ := hg
      rcases out with _ | d | status
      · simp only
        split_ifs with hup
        · rw [Bool.and_eq_true, decide_eq_true_eq] at hup
          exact absurd ⟨rfl, hup.1, hup.2, slot, hslot, hgen, hpty⟩ hquiet
        · exact h.lost (hs.allAttached hslot hpty) _
      · exact h.other hslot rfl rfl rfl (fun _ _ => rfl) (.inr hslot)
      · exact h.exits hslot status

/-- The channel of a terminal ends while the connection is up. -/
theorem output_channelEnded {id : ℕ} {slot : Slot} (hslot : s.slot id = some slot)
    (hpty : slot.pty.isSome) (hl : s.link = .up) :
    s.output id slot.generation none true = s.channelEnded id := by
  have hg : ¬(slot.generation ≠ slot.generation || slot.pty.isNone) = true := by
    simp [Option.isSome_iff_ne_none.mp hpty]
  unfold Terms.output
  simp only [hslot, if_neg hg, hl]
  rfl

theorem Decides.command (cmd : Option TermCmd) (h : Told s) (ho : ∀ ids, (order ids).Perm ids)
    (hs : s.Shaped) : Decides (match cmd with
      | some (.open spec reply) => (s.note (.handled (.open spec reply))).openFailed order
      | some .retry => (s.note (.handled .retry)).openFailed order
      | _ => none) (s.command cmd order).1 := by
  have hnote (cmd : TermCmd) : Told (s.note (.handled cmd)) :=
    h.quiet (.note (.refl s) (by nofun))
  rcases cmd with _ | cmd
  · exact h.decides
  · cases cmd with
    | «open» spec reply => exact .serveOpen (hnote _) spec reply ho (hs.note rfl)
    | retry =>
      have hn : (s.note (.handled .retry)).Shaped := hs.note rfl
      unfold openFailed
      simp only [Terms.command]
      cases hl : (s.note (.handled .retry)).link with
      | down retryAt e => exact (Ends.reconnect (hnote .retry) ho (hn.allDetached hl)).decides
      | _ => exact (hnote .retry).decides
    | stop => exact (hnote .stop).decides
    | _ => exact (h.quiet (.idleIfEmpty (.doLocal s _))).decides

theorem Decides.output {id generation : ℕ} {out : Option PtyOut} {alive : Bool} (h : Told s)
    (hs : s.Shaped) : Decides (match out with
      | none => match s.slot id with
        | some slot =>
          if slot.generation = generation ∧ slot.pty.isSome ∧ s.link = .up ∧ alive then
            s.channelFailed id slot
          else none
        | none => none
      | some _ => none) (s.output id generation out alive).1 := by
  cases out with
  | some out => exact (h.output hs fun hend => by cases hend.1).decides
  | none =>
    cases hslot : s.slot id with
    | none => exact (h.output hs fun ⟨_, _, _, _, hs', _⟩ => by simp [hslot] at hs').decides
    | some slot =>
      simp only
      split_ifs with hif
      · obtain ⟨rfl, hpty, hl, rfl⟩ := hif
        rw [output_channelEnded hslot hpty hl]
        exact (Ends.channelEnded h hslot hpty).decides
      · refine (h.output hs ?_).decides
        rintro ⟨-, hl, rfl, slot', hs', hgen, hpty⟩
        obtain rfl := Option.some.inj (hslot.symm.trans hs')
        exact hif ⟨hgen, hpty, hl, rfl⟩

theorem Decides.body (turn : Turn) (h : Told s) (hs : s.Shaped) :
    Decides (s.bodyFailed turn) (s.body turn).1 := by
  unfold bodyFailed Terms.body
  rcases hp : s.pending with _ | ⟨⟨spec, reply⟩, pending⟩
  · cases hw : turn.wake with
    | command cmd =>
      have hcommand := Decides.command cmd h turn.order_perm hs
      rcases cmd with _ | (_ | _ | _ | _ | _ | _) <;> exact hcommand
    | output id generation out alive =>
      have houtput : Decides _ (s.output id generation out alive).1 := .output h hs
      cases out <;> exact houtput
    | timer =>
      simp only
      split_ifs with hr
      · cases hl : s.link with
        | down retryAt e =>
          exact (Ends.reconnect h turn.order_perm (hs.allDetached hl)).decides
        | _ => simp [retryAt, hl] at hr
      · exact h.decides
  · have hs' : Shaped { s with pending := pending } := hs.same rfl rfl rfl
    have h' : Told { s with pending := pending } := h.quiet (.same rfl rfl rfl)
    exact .serveOpen h' spec reply turn.order_perm hs'

theorem Decides.step (turn : Turn) (h : Told s) (hs : s.ended = false → s.Shaped) :
    Decides (s.failedIn turn) (s.step turn) := by
  unfold Terms.step failedIn
  by_cases he : s.ended = true
  · rw [if_pos he, if_pos he]
    exact h.decides
  · rw [if_neg he, if_neg he]
    have hs' : (s.awake turn).Shaped := (hs (Bool.not_eq_true _ ▸ he)).same rfl rfl rfl
    have h' : Told (s.awake turn) := h.quiet (.same rfl rfl rfl)
    have hbody : Decides ((s.awake turn).bodyFailed turn)
      (Terms.body { s with now := s.now + turn.elapsed, script := turn.script } turn).1 :=
        .body turn h' hs'
    rcases hb : Terms.body { s with now := s.now + turn.elapsed, script := turn.script } turn with
      ⟨t, _ | _⟩ <;> rw [hb] at hbody
    · exact hbody.quiet (.closeAll t)
    · exact hbody

/-- In no turn of the run a terminal cannot attach again while one is detached, be it this one. -/
def NeverLostTwice (cfg : HostConfig) (turns : List Turn) : Prop :=
  ∀ pre turn post, turns = pre ++ turn :: post →
    ∀ t, (run cfg pre).failedIn turn = some t → t.AllAttached

theorem neverLostTwice_concat {cfg : HostConfig} {turns : List Turn} {turn : Turn} :
    NeverLostTwice cfg (turns ++ [turn]) ↔ NeverLostTwice cfg turns ∧
      ∀ t, (run cfg turns).failedIn turn = some t → t.AllAttached := by
  constructor
  · intro h
    constructor
    · rintro pre turn' post rfl
      exact h pre turn' (post ++ [turn]) (by simp)
    · exact h turns turn [] rfl
  · rintro ⟨h, hlast⟩ pre turn' post hcut
    rcases Log.concat_eq_cut.mp hcut with ⟨mid, hold, -⟩ | ⟨rfl, rfl, -⟩
    · exact h pre turn' mid hold
    · exact hlast

theorem run_told {cfg : HostConfig} {turns : List Turn} (hf : NeverLostTwice cfg turns) :
    Told (run cfg turns) := by
  induction turns using List.reverseRecOn with
  | nil => exact told_init cfg
  | append_singleton turns turn ih =>
    obtain ⟨hturns, hlast⟩ := neverLostTwice_concat.mp hf
    rw [run_concat]
    exact (Decides.step turn (ih hturns) shaped_run).1 hlast

/-- In every state of a run each owner was told in turn that its terminal is attached and that it
is detached, just when no terminal fails to attach again while one is detached. -/
theorem attached_alternate (cfg : HostConfig) (turns : List Turn) :
    (∀ pre, pre <+: turns → ∀ id, Alternate (owned (run cfg pre).log id)) ↔
      NeverLostTwice cfg turns := by
  constructor
  · intro h
    induction turns using List.reverseRecOn with
    | nil =>
      intro pre turn post hcut
      cases pre <;> cases hcut
    | append_singleton turns turn ih =>
      have hturns : NeverLostTwice cfg turns :=
        ih fun pre hpre => h pre (hpre.trans (List.prefix_append _ _))
      refine neverLostTwice_concat.mpr ⟨hturns, fun t hfailed => ?_⟩
      by_contra hnot
      obtain ⟨id, hid⟩ := (Decides.step turn (run_told hturns) shaped_run).2 t hfailed hnot
      rw [← run_concat] at hid
      exact hid (h _ List.prefix_rfl id)
  · rintro hf pre ⟨post, rfl⟩ id
    have hpre : NeverLostTwice cfg pre := by
      rintro before turn after rfl
      exact hf before turn (after ++ post) (by simp)
    exact (run_told hpre).alternate id

/-- A terminal that cannot attach again after its channel ended is told twice that it is
detached. -/
theorem not_alternate_failed :
    ¬ ∀ (cfg : HostConfig) (turns : List Turn) (id : ℕ),
      Alternate (owned (run cfg turns).log id) := by
  intro h
  have halternate := h ⟨"h", .localHost, none⟩ failedTurns 1
  have hevents : owned (run ⟨"h", .localHost, none⟩ failedTurns).log 1 =
      [.attached, .detached "terminal channel closed"] ++ [.detached "no session"] := by decide
  rw [hevents] at halternate
  exact absurd halternate.phase_of_detach (by decide)

end Turns

end MultiAi.Terms
