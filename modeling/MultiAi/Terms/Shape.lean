import MultiAi.Terms.Basic

/-! # The three shapes of the terminal task

At the top of its loop the task is idle without terminals, up with every terminal
attached, or down with every terminal detached, and it last reported that state.
-/

namespace MultiAi.Terms

open Std

def reported : TermEffect → Option (Option ConnState)
  | .emit _ state => some state
  | _ => none

/-- The state of the connection that was reported last. -/
def lastTerm (s : Terms) : Option ConnState := Log.latest reported none s.log

def AllAttached (s : Terms) : Prop := ∀ id slot, s.slot id = some slot → slot.pty.isSome

def AllDetached (s : Terms) : Prop := ∀ id slot, s.slot id = some slot → slot.pty = none

inductive Shape
  | idle
  | up
  | down
  deriving DecidableEq, Repr

def HasShape (s : Terms) : Shape → Prop
  | .idle => s.link = .idle ∧ s.slots = ∅ ∧ s.lastTerm = none
  | .up => s.link = .up ∧ s.slots ≠ ∅ ∧ s.AllAttached ∧ s.lastTerm = some .up
  | .down => (∃ retryAt error, s.link = .down retryAt error) ∧ s.slots ≠ ∅ ∧ s.AllDetached ∧
      ((∃ retryIn reason, s.lastTerm = some (.retrying retryIn reason)) ∨
        ∃ p, s.lastTerm = some (.needsUser p))

/-- The state at the top of the loop. -/
def Shaped (s : Terms) : Prop := ∃ sh, s.HasShape sh

/-- The connection is up, and every terminal is attached but those of `ids`. -/
structure Awaiting (s : Terms) (ids : List ℕ) : Prop where
  link : s.link = .up
  lastTerm : s.lastTerm = some .up
  slots : ∀ id slot, s.slot id = some slot → slot.pty.isSome ∨ id ∈ ids

/-- `s'` has the link and the reported state of `s`, and no slot that `s` has not,
each with its PTY unchanged. -/
structure Kept (s s' : Terms) : Prop where
  link : s'.link = s.link
  lastTerm : s'.lastTerm = s.lastTerm
  slots : ∀ id slot', s'.slot id = some slot' →
    ∃ slot, s.slot id = some slot ∧ slot'.pty = slot.pty

variable {s s' s'' : Terms}

theorem Kept.refl (s : Terms) : Kept s s := ⟨rfl, rfl, fun _ slot h => ⟨slot, h, rfl⟩⟩

theorem Kept.trans (h : Kept s s') (h' : Kept s' s'') : Kept s s'' where
  link := h'.link.trans h.link
  lastTerm := h'.lastTerm.trans h.lastTerm
  slots id slot'' hs := by
    obtain ⟨slot', hs', hp'⟩ := h'.slots id slot'' hs
    obtain ⟨slot, hs, hp⟩ := h.slots id slot' hs'
    exact ⟨slot, hs, hp'.trans hp⟩

theorem Kept.allAttached (h : Kept s s') (hs : s.AllAttached) : s'.AllAttached := by
  intro id slot' h'
  obtain ⟨slot, hslot, hp⟩ := h.slots id slot' h'
  exact hp ▸ hs id slot hslot

theorem Kept.allDetached (h : Kept s s') (hs : s.AllDetached) : s'.AllDetached := by
  intro id slot' h'
  obtain ⟨slot, hslot, hp⟩ := h.slots id slot' h'
  exact hp.trans (hs id slot hslot)

theorem lastTerm_note (e : TermEffect) : (s.note e).lastTerm = (reported e).getD s.lastTerm :=
  Log.latest_concat e

theorem Kept.note {e : TermEffect} (h : reported e = none) (s : Terms) : Kept s (s.note e) :=
  ⟨rfl, by rw [lastTerm_note, h, Option.getD_none], fun _ slot hs => ⟨slot, hs, rfl⟩⟩

theorem Kept.send (s : Terms) (slot : Slot) (msg : PtyIn) : Kept s (s.send slot msg) := by
  unfold Terms.send
  cases slot.pty with
  | none => exact .refl s
  | some p => exact .note rfl s

theorem Kept.setSlot {id : ℕ} {slot slot' : Slot} (h : s.slot id = some slot)
    (hp : slot'.pty = slot.pty) : Kept s (s.setSlot id slot') where
  link := rfl
  lastTerm := rfl
  slots id' t ht := by
    rw [slot_setSlot] at ht
    split_ifs at ht with he
    · subst he
      exact ⟨slot, h, Option.some.inj ht ▸ hp⟩
    · exact ⟨t, ht, rfl⟩

theorem Kept.dropSlot (s : Terms) (id : ℕ) : Kept s (s.dropSlot id) where
  link := rfl
  lastTerm := rfl
  slots id' t ht := by
    rw [slot_dropSlot] at ht
    split_ifs at ht
    exact ⟨t, ht, rfl⟩

theorem Kept.doLocal (s : Terms) (cmd : TermCmd) : Kept s (s.doLocal cmd) := by
  have hn : Kept s (s.note (.handled cmd)) := .note rfl s
  refine hn.trans ?_
  cases cmd with
  | input id data =>
    simp only [Terms.doLocal]
    cases (s.note (.handled (.input id data))).slot id with
    | none => exact .refl _
    | some slot => exact .send _ slot _
  | resize id size =>
    simp only [Terms.doLocal]
    cases h : (s.note (.handled (.resize id size))).slot id with
    | none => exact .refl _
    | some slot =>
      refine (Kept.setSlot h ?_).trans (Kept.send _ slot _)
      rfl
  | close id =>
    simp only [Terms.doLocal]
    cases (s.note (.handled (.close id))).slot id with
    | none => exact .refl _
    | some slot => exact (Kept.dropSlot _ id).trans (.send _ slot _)
  | «open» spec reply => exact ⟨rfl, rfl, fun _ slot hs => ⟨slot, hs, rfl⟩⟩
  | retry => exact .refl _
  | stop => exact .refl _

theorem Kept.await (s : Terms) : Kept s s.await.1 := by
  refine await_induct (fun t cmd h => h.trans (.doLocal t cmd)) (fun t script now h => ?_) (.refl s)
  exact h.trans ⟨rfl, rfl, fun _ slot hs => ⟨slot, hs, rfl⟩⟩

/-- An attach over a connection that is up leaves it up. -/
theorem Kept.attach {id generation : ℕ} {spec : AttachSpec} {r : Except OpenError ℕ}
    (hup : s.link = .up) (h : s.attach id generation spec = (s', some r)) : Kept s s' := by
  have hlent : Kept { s with link := Link.busy } ({ s with link := .busy }.note
      (.attach id spec s.zellijPath)).await.1 := (Kept.note rfl _).trans (.await _)
  obtain ⟨t, rfl, ⟨e, -, rfl⟩ | ⟨-, rfl⟩⟩ := attach_cases hup h
  · exact ⟨hup.symm, hlent.lastTerm, hlent.slots⟩
  · refine Kept.trans ⟨hup.symm, ?_, ?_⟩ (.note rfl _)
    · exact hlent.lastTerm
    · exact hlent.slots

theorem HasShape.link_eq {sh : Shape} (h : s.HasShape sh) :
    sh = match s.link with
      | .idle => .idle
      | .down .. => .down
      | _ => .up := by
  cases sh with
  | idle => rw [h.1]
  | up => rw [h.1]
  | down =>
    obtain ⟨⟨_, _, hl⟩, -⟩ := h
    rw [hl]

theorem Awaiting.allAttached (h : s.Awaiting []) : s.AllAttached := fun id slot hs =>
  (h.slots id slot hs).resolve_right List.not_mem_nil

theorem Awaiting.kept {ids : List ℕ} (h : s.Awaiting ids) (hk : Kept s s') :
    s'.Awaiting ids where
  link := hk.link.trans h.link
  lastTerm := hk.lastTerm.trans h.lastTerm
  slots id slot' hs := by
    obtain ⟨slot, hslot, hp⟩ := hk.slots id slot' hs
    exact hp ▸ h.slots id slot hslot

theorem Awaiting.shaped (h : s.Awaiting []) (hs : s.slots ≠ ∅) : s.Shaped :=
  ⟨.up, h.link, hs, h.allAttached, h.lastTerm⟩

theorem lastTerm_emit (s : Terms) (state : Option ConnState) :
    (s.emit state).lastTerm = state := lastTerm_note _

/-- Going idle when the last terminal is gone. -/
theorem idleIfEmpty_empty (hs : s.slots = ∅) (hi : s.link ≠ .idle) (hb : s.link ≠ .busy) :
    s.idleIfEmpty.Shaped := by
  refine ⟨.idle, ?_⟩
  unfold idleIfEmpty
  rw [if_pos (by simp [hs, hi, hb])]
  exact ⟨rfl, hs, lastTerm_emit _ none⟩

theorem idleIfEmpty_nonempty (hs : s.slots ≠ ∅) : s.idleIfEmpty = s := by
  unfold idleIfEmpty
  rw [if_neg]
  simp only [Bool.and_eq_true, ExtTreeMap.isEmpty_iff]
  exact fun h => hs h.1.1

theorem idleIfEmpty_idle (hi : s.link = .idle) : s.idleIfEmpty = s := by
  unfold idleIfEmpty
  simp [hi]

theorem Awaiting.idleIfEmpty (h : s.Awaiting []) : s.idleIfEmpty.Shaped := by
  by_cases hs : s.slots = ∅
  · exact idleIfEmpty_empty hs (by simp [h.link]) (by simp [h.link])
  · rw [idleIfEmpty_nonempty hs]
    exact h.shaped hs

theorem Kept.slots_eq_empty (h : Kept s s') (hs : s.slots = ∅) : s'.slots = ∅ := by
  rw [slots_eq_empty_iff] at hs ⊢
  intro id
  cases h' : s'.slot id with
  | none => rfl
  | some slot' =>
    obtain ⟨slot, hslot, -⟩ := h.slots id slot' h'
    rw [hs id] at hslot
    cases hslot

/-- Dropping terminals and then going idle if none is left keeps the state shaped. -/
theorem Shaped.kept_idleIfEmpty (h : s.Shaped) (hk : Kept s s') : s'.idleIfEmpty.Shaped := by
  obtain ⟨sh, h⟩ := h
  cases sh with
  | idle =>
    obtain ⟨hl, hs, ht⟩ := h
    rw [idleIfEmpty_idle (hk.link.trans hl)]
    exact ⟨.idle, hk.link.trans hl, hk.slots_eq_empty hs, hk.lastTerm.trans ht⟩
  | up =>
    obtain ⟨hl, -, ha, ht⟩ := h
    have hw : s.Awaiting [] := ⟨hl, ht, fun id slot hs => .inl (ha id slot hs)⟩
    exact (hw.kept hk).idleIfEmpty
  | down =>
    obtain ⟨⟨at', e, hl⟩, -, ha, ht⟩ := h
    have hl' := hk.link.trans hl
    by_cases hs : s'.slots = ∅
    · exact idleIfEmpty_empty hs (by simp [hl']) (by simp [hl'])
    · rw [idleIfEmpty_nonempty hs]
      exact ⟨.down, ⟨at', e, hl'⟩, hs, hk.allDetached ha, hk.lastTerm ▸ ht⟩

/-- The shape is that of the link, the terminals and the last report. -/
theorem Shaped.same (h : s.Shaped) (hlink : s'.link = s.link) (hslots : s'.slots = s.slots)
    (hlast : s'.lastTerm = s.lastTerm) : s'.Shaped := by
  have hslot : ∀ id, s'.slot id = s.slot id := fun id => by rw [slot, slot, hslots]
  obtain ⟨sh, h⟩ := h
  refine ⟨sh, ?_⟩
  cases sh with
  | idle => exact ⟨hlink.trans h.1, hslots.trans h.2.1, hlast.trans h.2.2⟩
  | up =>
    refine ⟨hlink.trans h.1, hslots ▸ h.2.1, fun id slot hs => ?_, hlast.trans h.2.2.2⟩
    exact h.2.2.1 id slot ((hslot id).symm.trans hs)
  | down =>
    refine ⟨hlink ▸ h.1, hslots ▸ h.2.1, fun id slot hs => ?_, hlast ▸ h.2.2.2⟩
    exact h.2.2.1 id slot ((hslot id).symm.trans hs)

theorem Shaped.note {e : TermEffect} (he : reported e = none) (h : s.Shaped) :
    (s.note e).Shaped :=
  h.same rfl rfl (Kept.note he s).lastTerm

/-- A connection that is down with every terminal detached: idle without terminals,
and otherwise the reason is reported. -/
theorem down_or_idle {at' : Option ℕ} {e : OpenError} {c : ConnState}
    (hl : s.link = .down at' e) (hd : s.AllDetached)
    (hc : (∃ retryIn reason, c = .retrying retryIn reason) ∨ ∃ p, c = .needsUser p) :
    (if s.slots.isEmpty then s.idleIfEmpty else s.emit (some c)).Shaped := by
  split_ifs with hs
  · exact idleIfEmpty_empty (by simpa using hs) (by simp [hl]) (by simp [hl])
  · have hne : s.slots ≠ ∅ := by simpa using hs
    refine ⟨.down, ⟨at', e, hl⟩, hne, hd, ?_⟩
    rw [lastTerm_emit]
    rcases hc with ⟨i, m, rfl⟩ | ⟨p, rfl⟩
    · exact .inl ⟨i, m, rfl⟩
    · exact .inr ⟨p, rfl⟩

theorem down_shaped (hd : s.AllDetached) (reason : String) : (s.down reason).Shaped := by
  unfold down
  exact down_or_idle rfl hd (.inl ⟨_, _, rfl⟩)

theorem lost_shaped (s : Terms) (reason : String) : (s.lost reason).Shaped := by
  unfold lost
  refine down_shaped ?_ reason
  intro id slot' h
  obtain ⟨t, -, rfl⟩ := slot_map_detach (s := s) rfl h
  rfl

/-- An attach that succeeded fills its slot, or closes the PTY if the slot is gone. -/
theorem Awaiting.reattached {id generation p : ℕ} {ids : List ℕ} (h : s.Awaiting (id :: ids)) :
    (s.reattached id generation p).Awaiting ids := by
  unfold Terms.reattached
  cases hs : s.slot id with
  | none =>
    simp only
    have h' : s.Awaiting ids := by
      refine ⟨h.link, h.lastTerm, fun id' slot h' => ?_⟩
      rcases h.slots id' slot h' with hp | hm
      · exact .inl hp
      · rcases List.mem_cons.mp hm with rfl | hm
        · rw [hs] at h'; cases h'
        · exact .inr hm
    exact h'.kept (.note rfl s)
  | some slot =>
    simp only
    refine Awaiting.kept (s := s.setSlot id _) ⟨h.link, h.lastTerm, fun id' slot' h' => ?_⟩ (.note rfl _)
    rw [slot_setSlot] at h'
    split_ifs at h' with he
    · cases h'
      exact .inl rfl
    · rcases h.slots id' slot' h' with hp | hm
      · exact .inl hp
      · exact .inr ((List.mem_cons.mp hm).resolve_left fun hid => he hid.symm)

theorem attachAll_shaped {ids : List ℕ} (h : s.Awaiting ids)
    (hr : s.attachAll ids = (s', true)) : s'.Shaped := by
  induction ids generalizing s with
  | nil =>
    cases hr
    exact h.idleIfEmpty
  | cons id ids ih =>
    rw [attachAll] at hr
    cases hs : s.slot id with
    | none =>
      rw [hs] at hr
      refine ih ⟨h.link, h.lastTerm, fun id' slot h' => ?_⟩ hr
      refine (h.slots id' slot h').imp_right fun hm => ?_
      exact (List.mem_cons.mp hm).resolve_left fun he => by rw [he, hs] at h'; cases h'
    | some slot =>
      simp only [hs] at hr
      rcases ha : s.attach id (slot.generation + 1) slot.spec with ⟨t, _ | e | p⟩
      · rw [ha] at hr; cases hr
      · rw [ha] at hr
        cases hr
        exact lost_shaped t _
      · rw [ha] at hr
        exact ih (h.kept (.attach h.link ha)).reattached hr

/-- Connecting, unless told to stop: the connection is up, or nothing changed. -/
theorem connect_cases {r : Except OpenError Unit} (h : s.connect = (s', some r)) :
    (r = .ok () ∧ s'.link = .up ∧ s'.lastTerm = some .up ∧
      ∀ id slot', s'.slot id = some slot' → ∃ slot, s.slot id = some slot ∧
        slot'.pty = slot.pty) ∨
    (∃ e, r = .error e) ∧ Kept s s' := by
  have hk : Kept s (s.note .openTerminals).await.1 := (Kept.note rfl s).trans (.await _)
  rw [connect] at h
  rcases ha : (s.note .openTerminals).await with ⟨t, _ | e | _⟩
  · rw [ha] at h; cases h
  · rw [ha] at h hk
    cases h
    exact .inr ⟨⟨e, rfl⟩, hk⟩
  · rw [ha] at h hk
    cases h
    exact .inl ⟨rfl, rfl, lastTerm_emit _ _, hk.slots⟩

theorem reconnect_shaped {order : List ℕ → List ℕ} (ho : ∀ ids, (order ids).Perm ids)
    (hd : s.AllDetached) (h : s.reconnect order = (s', true)) : s'.Shaped := by
  rw [reconnect] at h
  rcases hc : s.connect with ⟨t, _ | (reason | p) | _⟩
  · rw [hc] at h; cases h
  all_goals
    rcases connect_cases hc with ⟨hr, hl, ht, hs⟩ | ⟨⟨e, hr⟩, hk⟩ <;> cases hr
    simp only [hc] at h
  · cases h
    exact down_shaped (hk.allDetached hd) reason
  · cases h
    exact down_or_idle (s := { t with link := .down none (.needsUser p) }) rfl (hk.allDetached hd) (.inr ⟨p, rfl⟩)
  · refine attachAll_shaped ⟨hl, ht, fun id slot hslot => .inr ?_⟩ h
    rw [(ho _).mem_iff, mem_keys, hslot]
    rfl

theorem connectIdle_cases {r : Except TermError Unit} (hs : s.slots = ∅)
    (h : s.connectIdle = (s', some r)) :
    r = .ok () ∧ s'.Awaiting [] ∨ (∃ e, r = .error e) ∧ s'.Shaped := by
  rw [connectIdle] at h
  rcases hc : s.connect with ⟨t, _ | e | _⟩
  · rw [hc] at h; cases h
  all_goals
    rcases connect_cases hc with ⟨hr, hl, ht, hk⟩ | ⟨⟨e, hr⟩, hk⟩ <;> cases hr
    rw [hc] at h
    cases h
  · exact .inr ⟨⟨_, rfl⟩, .idle, rfl, hk.slots_eq_empty hs, lastTerm_emit _ _⟩
  · refine .inl ⟨rfl, hl, ht, fun id slot hslot => ?_⟩
    obtain ⟨slot', h', -⟩ := hk id slot hslot
    rw [(slots_eq_empty_iff s).mp hs id] at h'
    cases h'

theorem openLink_cases {order : List ℕ → List ℕ} {r : Except TermError Unit}
    (ho : ∀ ids, (order ids).Perm ids) (hs : s.Shaped) (h : s.openLink order = (s', some r)) :
    r = .ok () ∧ s'.Awaiting [] ∨ (∃ e, r = .error e) ∧ s'.Shaped := by
  obtain ⟨sh, hs⟩ := hs
  rw [openLink] at h
  cases sh with
  | idle =>
    rw [hs.1] at h
    exact connectIdle_cases hs.2.1 h
  | up =>
    obtain ⟨hl, -, ha, ht⟩ := hs
    rw [hl] at h
    cases h
    exact .inl ⟨rfl, hl, ht, fun id slot hslot => .inl (ha id slot hslot)⟩
  | down =>
    obtain ⟨⟨at', e, hl⟩, -, hd, -⟩ := hs
    rw [hl] at h
    rcases hr : s.reconnect order with ⟨t, _ | _⟩
    · simp only [hr] at h; cases h
    · simp only [hr] at h
      obtain ⟨sh, ht⟩ := reconnect_shaped ho hd hr
      cases sh with
      | idle =>
        rw [ht.1] at h
        exact connectIdle_cases ht.2.1 h
      | up =>
        obtain ⟨hl, -, ha, hup⟩ := ht
        rw [hl] at h
        cases h
        exact .inl ⟨rfl, hl, hup, fun id slot hslot => .inl (ha id slot hslot)⟩
      | down =>
        obtain ⟨⟨at', e, hl⟩, -⟩ := id ht
        rw [hl] at h
        cases h
        exact .inr ⟨⟨_, rfl⟩, .down, ht⟩

theorem openTerminal_shaped {spec : AttachSpec} {order : List ℕ → List ℕ}
    {r : Except TermError ℕ} (ho : ∀ ids, (order ids).Perm ids) (hs : s.Shaped)
    (h : s.openTerminal spec order = (s', some r)) : s'.Shaped := by
  rw [openTerminal] at h
  rcases hl : s.openLink order with ⟨t, _ | e | _⟩
  · rw [hl] at h; cases h
  all_goals
    rcases openLink_cases ho hs hl with ⟨hr, hw⟩ | ⟨⟨e, hr⟩, ht⟩ <;> cases hr
    simp only [hl] at h
  · cases h
    exact ht
  · have hw' : ({ t with nextId := t.nextId + 1 }.note (.opening t.nextId spec)).Awaiting [] :=
      Awaiting.kept (s := { t with nextId := t.nextId + 1 })
        ⟨hw.link, hw.lastTerm, hw.slots⟩ (.note rfl _)
    rcases ha : ({ t with nextId := t.nextId + 1 }.note (.opening t.nextId spec)).attach
      t.nextId 0 spec with ⟨u, _ | e | p⟩
    · rw [ha] at h; cases h
    · rw [ha] at h
      cases h
      exact (hw'.kept (.attach hw'.link ha)).idleIfEmpty
    · rw [ha] at h
      cases h
      have hu : (u.note (.owner t.nextId .attached)).Awaiting [] :=
        (hw'.kept (.attach hw'.link ha)).kept (.note rfl _)
      refine Awaiting.shaped ⟨hu.link, hu.lastTerm, fun id' slot h' => ?_⟩ fun he => ?_
      · rw [slot_setSlot] at h'
        split_ifs at h'
        · cases h'
          exact .inl rfl
        · exact hu.slots id' slot h'
      · have := (slots_eq_empty_iff _).mp he t.nextId
        rw [slot_setSlot, if_pos rfl] at this
        cases this

theorem serveOpen_shaped {spec : AttachSpec} {reply : ℕ} {order : List ℕ → List ℕ}
    (ho : ∀ ids, (order ids).Perm ids) (hs : s.Shaped)
    (h : s.serveOpen spec reply order = (s', true)) : s'.Shaped := by
  rw [serveOpen] at h
  rcases hr : s.openTerminal spec order with ⟨t, _ | r⟩
  · rw [hr] at h; cases h
  · rw [hr] at h
    cases h
    exact (openTerminal_shaped ho hs hr).note rfl

theorem channelEnded_shaped {id : ℕ} (hl : s.link = .up) (hs : s.Shaped)
    (h : s.channelEnded id = (s', true)) : s'.Shaped := by
  obtain ⟨sh, hsh⟩ := hs
  obtain rfl : sh = .up := by have := hsh.link_eq; rwa [hl] at this
  rw [channelEnded] at h
  cases hslot : s.slot id with
  | none =>
    rw [hslot] at h
    cases h
    exact ⟨.up, hsh⟩
  | some slot =>
    simp only [hslot] at h
    obtain ⟨-, -, ha, ht⟩ := hsh
    -- Every terminal but this one is attached.
    have hw : ∀ t : Slot, (s.setSlot id t).Awaiting [id] := fun t => by
      refine ⟨hl, ht, fun id' slot' h' => ?_⟩
      rw [slot_setSlot] at h'
      split_ifs at h' with he
      · exact .inr (by simp [he])
      · exact .inl (ha id' slot' h')
    generalize (if s.now - slot.attachedAt < stableAfter then slot.quickEnds + 1 else 0) = q at h
    split_ifs at h with hq
    · cases h
      refine Awaiting.idleIfEmpty ⟨hl, (lastTerm_note _).trans ht, fun id' slot' h' => ?_⟩
      rw [slot_dropSlot] at h'
      split_ifs at h' with he
      exact .inl (((hw _).slots id' slot' h').resolve_right fun hm => he (List.mem_singleton.mp hm).symm)
    · set u := (s.setSlot id _).note (.owner id (.detached "terminal channel closed")) with hu
      have hwu : u.Awaiting [id] := (hw _).kept (.note rfl _)
      rcases hr : u.attach id (slot.generation + 1) slot.spec with ⟨t, _ | e | p⟩
      · rw [hr] at h; cases h
      · rw [hr] at h
        cases h
        exact lost_shaped t _
      · rw [hr] at h
        cases h
        exact (hwu.kept (.attach hwu.link hr)).reattached.idleIfEmpty

theorem output_shaped {id generation : ℕ} {out : Option PtyOut} {alive : Bool} (hs : s.Shaped)
    (h : s.output id generation out alive = (s', true)) : s'.Shaped := by
  unfold output at h
  cases hslot : s.slot id with
  | none =>
    rw [hslot] at h
    cases h
    exact hs
  | some slot =>
    simp only [hslot] at h
    by_cases hg : (slot.generation ≠ generation || slot.pty.isNone) = true
    · rw [if_pos hg] at h
      cases h
      exact hs
    rw [if_neg hg] at h
    rcases out with _ | d | status
    · simp only at h
      split_ifs at h with hup
      · rw [Bool.and_eq_true, decide_eq_true_eq] at hup
        exact channelEnded_shaped hup.1 hs h
      · cases h
        exact lost_shaped s _
    · cases h
      exact hs.note rfl
    · cases h
      exact hs.kept_idleIfEmpty ((Kept.note rfl s).trans (.dropSlot _ id))

/-- A reconnect is only tried while the connection is down. -/
theorem Shaped.allDetached {at' : Option ℕ} {e : OpenError} (hs : s.Shaped)
    (hl : s.link = .down at' e) : s.AllDetached := by
  obtain ⟨sh, hsh⟩ := hs
  obtain rfl : sh = .down := by have := hsh.link_eq; rwa [hl] at this
  exact hsh.2.2.1

theorem command_shaped {cmd : Option TermCmd} {order : List ℕ → List ℕ}
    (ho : ∀ ids, (order ids).Perm ids) (hs : s.Shaped)
    (h : s.command cmd order = (s', true)) : s'.Shaped := by
  cases cmd with
  | none => cases h
  | some cmd =>
    cases cmd with
    | «open» spec reply => exact serveOpen_shaped ho (hs.note rfl) h
    | retry =>
      have hn : (s.note (.handled .retry)).Shaped := hs.note rfl
      simp only [command] at h
      cases hl : (s.note (.handled .retry)).link with
      | down at' e =>
        rw [hl] at h
        exact reconnect_shaped ho (hn.allDetached hl) h
      | _ =>
        rw [hl] at h
        cases h
        exact hn
    | stop => cases h
    | _ =>
      cases h
      exact hs.kept_idleIfEmpty (.doLocal s _)

theorem body_shaped {turn : Turn} (hs : s.Shaped) (h : s.body turn = (s', true)) :
    s'.Shaped := by
  unfold body at h
  cases hp : s.pending with
  | cons p pending =>
    rw [hp] at h
    have hs' : Shaped { s with pending := pending } := hs.same rfl rfl rfl
    exact serveOpen_shaped turn.order_perm hs' h
  | nil =>
    rw [hp] at h
    cases hw : turn.wake with
    | command cmd =>
      rw [hw] at h
      exact command_shaped turn.order_perm hs h
    | output id generation out alive =>
      rw [hw] at h
      exact output_shaped hs h
    | timer =>
      rw [hw] at h
      simp only at h
      split_ifs at h with hr
      · cases hl : s.link with
        | down at' e => exact reconnect_shaped turn.order_perm (hs.allDetached hl) h
        | _ => simp [retryAt, hl] at hr
      · cases h
        exact hs

theorem step_shaped {turn : Turn} (hs : s.Shaped) (he : (s.step turn).ended = false) :
    (s.step turn).Shaped := by
  unfold step at he ⊢
  split_ifs at he ⊢ with h
  · exact hs
  have hs' : Shaped { s with now := s.now + turn.elapsed, script := turn.script } :=
    hs.same rfl rfl rfl
  rcases hb : body { s with now := s.now + turn.elapsed, script := turn.script } turn with
    ⟨t, _ | _⟩
  · rw [hb] at he
    cases he
  · exact body_shaped hs' hb

theorem ended_of_step {turn : Turn} (he : (s.step turn).ended = false) : s.ended = false := by
  unfold step at he
  split_ifs at he with h
  · rw [h] at he
    cases he
  · simpa using h

theorem init_shaped (cfg : HostConfig) : (init cfg).Shaped := ⟨.idle, rfl, rfl, rfl⟩

/-- At the top of its loop the task has exactly one of the three shapes, and no
attach is under way. -/
theorem run_shaped (cfg : HostConfig) (turns : List Turn) (h : (run cfg turns).ended = false) :
    (∃! sh, (run cfg turns).HasShape sh) ∧ (run cfg turns).link ≠ .busy := by
  have hs : (run cfg turns).Shaped := by
    induction turns using List.reverseRecOn with
    | nil => exact init_shaped cfg
    | append_singleton turns turn ih =>
      simp only [run, List.foldl_concat] at h ih ⊢
      exact step_shaped (ih (ended_of_step h)) h
  obtain ⟨sh, hsh⟩ := hs
  refine ⟨⟨sh, hsh, fun sh' h' => h'.link_eq.trans hsh.link_eq.symm⟩, ?_⟩
  cases sh with
  | idle => simp [hsh.1]
  | up => simp [hsh.1]
  | down =>
    obtain ⟨⟨_, _, hl⟩, -⟩ := hsh
    simp [hl]

/-- A terminal is opened, and the connection is then lost. -/
def lostTurns : List Turn := [
  ⟨0, .command (some (.open ⟨"work", false, ⟨80, 24⟩⟩ 7)),
    [⟨[], 5, none, some (.ok ())⟩, ⟨[.resize 1 ⟨100, 30⟩], 5, none, some (.ok ())⟩],
    id, List.Perm.refl⟩,
  ⟨10, .output 1 0 none false, [], id, List.Perm.refl⟩]

theorem run_shaped_lost :
    (∃! sh, (run ⟨"h", .localHost, none⟩ lostTurns).HasShape sh) ∧
      (run ⟨"h", .localHost, none⟩ lostTurns).link ≠ .busy :=
  run_shaped _ _ (by decide)

end MultiAi.Terms
