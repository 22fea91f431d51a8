import MultiAi.Terms.Shape

/-! # The size in force on a terminal

A resize is sent to the PTY if there is one, and is otherwise kept for the next
attach. An attach takes a copy of the size when it starts, so a resize that is
handled while it is under way reaches neither the new PTY nor its start size.
-/

namespace MultiAi.Terms

open Std

/-- The size an entry gives the PTY `p`. -/
def givesSize (p : ℕ) : TermEffect → Option (Option TermSize)
  | .created p' _ _ spec => if p' = p then some (some spec.size) else none
  | .pty p' (.resize size) => if p' = p then some (some size) else none
  | _ => none

/-- The size in force on a PTY: the one it was attached with, or the last one
sent to it. -/
def inForce (log : List TermEffect) (p : ℕ) : Option TermSize := Log.latest (givesSize p) none log

/-- What was asked for a terminal, and the course of its last attach. -/
structure Watch where
  /-- The size of the last resize handled, or of the spec. -/
  asked : Option TermSize
  /-- The size the last attach was called with. -/
  started : Option TermSize
  /-- The last resize handled since that attach was called. -/
  sinceCall : Option TermSize
  /-- The last resize handled since an attach succeeded. -/
  sinceSuccess : Option TermSize
  deriving DecidableEq, Repr

def Watch.step (id : ℕ) (w : Watch) : TermEffect → Watch
  | .opening id' spec => if id' = id then { w with asked := some spec.size } else w
  | .attach id' spec _ =>
    if id' = id then { w with started := some spec.size, sinceCall := none } else w
  | .created _ id' _ _ => if id' = id then { w with sinceSuccess := none } else w
  | .handled (.resize id' size) =>
    if id' = id then
      { w with asked := some size, sinceCall := some size, sinceSuccess := some size }
    else w
  | _ => w

def watch (log : List TermEffect) (id : ℕ) : Watch :=
  log.foldl (Watch.step id) ⟨none, none, none, none⟩

/-- No resize was handled since the attach succeeded, and the last one handled
while it was under way asked for another size than it was called with. -/
def Watch.Overtaken (w : Watch) : Prop :=
  w.sinceSuccess = none ∧ ∃ size, w.sinceCall = some size ∧ w.started ≠ some size

/-- The PTY of a terminal, if it is attached. -/
def pty (s : Terms) (id : ℕ) : Option ℕ := (s.slot id).bind (·.pty)

def size (s : Terms) (id : ℕ) : Option TermSize := (s.slot id).map (·.spec.size)

/-- Every attached terminal has the size that was last asked for it. -/
def Sized (s : Terms) : Prop :=
  ∀ id p, s.pty id = some p → inForce s.log p = (watch s.log id).asked

/-- No attached terminal was resized while its attach was under way, unless to the
size of that attach or followed by another resize. -/
def Timely (s : Terms) : Prop :=
  ∀ id p, s.pty id = some p → ¬(watch s.log id).Overtaken

/-- The size in force is the last one asked for since the attach succeeded, or the
one the attach was called with. -/
structure Watch.Fits (w : Watch) (f : Option TermSize) : Prop where
  inForce : f = w.sinceSuccess.or w.started
  asked : w.asked = w.sinceCall.or w.started
  later : ∀ size, w.sinceSuccess = some size → w.sinceCall = some size

theorem Watch.Fits.eq_asked_iff {w : Watch} {f : Option TermSize} (h : w.Fits f) :
    f = w.asked ↔ ¬w.Overtaken := by
  rw [h.inForce, h.asked, Overtaken]
  cases ha : w.sinceSuccess with
  | some size => simp [h.later size ha]
  | none =>
    cases hd : w.sinceCall with
    | none => simp
    | some size => simp

def Fitted (s : Terms) : Prop :=
  ∀ id p, s.pty id = some p → (watch s.log id).Fits (inForce s.log p)

/-- The sizes of the slots are those last asked for, and every PTY but those of
`ids` fits. -/
structure Sizes (s : Terms) (ids : List ℕ) : Prop where
  asked : ∀ id z, s.size id = some z → (watch s.log id).asked = some z
  fits : ∀ id p, s.pty id = some p → id ∉ ids → (watch s.log id).Fits (inForce s.log p)
  fresh : ∀ id p, s.pty id = some p → p < s.nextPty
  own : ∀ id id' p, s.pty id = some p → s.pty id' = some p → id = id'
  next : ∀ id, (s.slot id).isSome → id < s.nextId

variable {s s' t : Terms} {ids : List ℕ}

theorem watch_note (e : TermEffect) (id : ℕ) :
    watch (s.note e).log id = (watch s.log id).step id e := List.foldl_concat ..

theorem inForce_note (e : TermEffect) (p : ℕ) :
    inForce (s.note e).log p = (givesSize p e).getD (inForce s.log p) := Log.latest_concat e

/-- An entry that neither asks for a size nor gives one. -/
structure Neutral (e : TermEffect) : Prop where
  watch : ∀ id w, Watch.step id w e = w
  inForce : ∀ p, givesSize p e = none

theorem Neutral.owner (id : ℕ) (ev : TermEvent) : Neutral (.owner id ev) :=
  ⟨fun _ _ => rfl, fun _ => rfl⟩

theorem Neutral.emit (id : String) (st : Option ConnState) : Neutral (.emit id st) :=
  ⟨fun _ _ => rfl, fun _ => rfl⟩

/-- The invariant reads the slots, the log and the two counters. -/
theorem Sizes.congr (h : s.Sizes ids) (hslots : s'.slots = s.slots) (hlog : s'.log = s.log)
    (hpty : s'.nextPty = s.nextPty) (hid : s'.nextId = s.nextId) : s'.Sizes ids := by
  have hslot : ∀ id, s'.slot id = s.slot id := fun id => by rw [slot, hslots, slot]
  have hp : ∀ id, s'.pty id = s.pty id := fun id => by rw [pty, hslot, pty]
  have hz : ∀ id, s'.size id = s.size id := fun id => by rw [size, hslot, size]
  constructor
  · intro id z
    rw [hz, hlog]
    exact h.asked id z
  · intro id p
    rw [hp, hlog]
    exact h.fits id p
  · intro id p
    rw [hp, hpty]
    exact h.fresh id p
  · intro id id' p
    rw [hp, hp]
    exact h.own id id' p
  · intro id
    rw [hslot, hid]
    exact h.next id

theorem Sizes.note {e : TermEffect} (h : s.Sizes ids) (he : Neutral e) : (s.note e).Sizes ids where
  asked id z hz := by
    rw [watch_note, he.watch]
    exact h.asked id z hz
  fits id p hp hid := by
    rw [watch_note, he.watch, inForce_note, he.inForce]
    exact h.fits id p hp hid
  fresh := h.fresh
  own := h.own
  next := h.next

theorem Sizes.send {slot : Slot} {msg : PtyIn} (h : s.Sizes ids)
    (hm : ∀ p, Neutral (.pty p msg)) : (s.send slot msg).Sizes ids := by
  unfold Terms.send
  cases slot.pty with
  | none => exact h
  | some p => exact h.note (hm p)

theorem pty_setSlot (id id' : ℕ) (slot : Slot) :
    (s.setSlot id slot).pty id' = if id = id' then slot.pty else s.pty id' := by
  rw [pty, slot_setSlot]
  split_ifs <;> rfl

theorem size_setSlot (id id' : ℕ) (slot : Slot) :
    (s.setSlot id slot).size id' = if id = id' then some slot.spec.size else s.size id' := by
  rw [size, slot_setSlot]
  split_ifs <;> rfl

theorem pty_dropSlot (id id' : ℕ) :
    (s.dropSlot id).pty id' = if id = id' then none else s.pty id' := by
  rw [pty, slot_dropSlot]
  split_ifs <;> rfl

theorem size_dropSlot (id id' : ℕ) :
    (s.dropSlot id).size id' = if id = id' then none else s.size id' := by
  rw [size, slot_dropSlot]
  split_ifs <;> rfl

theorem Sizes.dropSlot {id : ℕ} (h : s.Sizes (id :: ids)) : (s.dropSlot id).Sizes ids where
  asked id' z hz := by
    rw [size_dropSlot] at hz
    split_ifs at hz
    exact h.asked id' z hz
  fits id' p hp hid := by
    rw [pty_dropSlot] at hp
    split_ifs at hp with hne
    refine h.fits id' p hp fun hm => ?_
    rcases List.mem_cons.mp hm with he | hm
    · exact hne he.symm
    · exact hid hm
  fresh id' p hp := by
    rw [pty_dropSlot] at hp
    split_ifs at hp
    exact h.fresh id' p hp
  own id₁ id₂ p h₁ h₂ := by
    rw [pty_dropSlot] at h₁ h₂
    split_ifs at h₁ h₂
    exact h.own id₁ id₂ p h₁ h₂
  next id' hs := by
    rw [slot_dropSlot] at hs
    split_ifs at hs
    · cases hs
    · exact h.next id' hs

theorem Sizes.mono {ids' : List ℕ} (h : s.Sizes ids) (hs : ids ⊆ ids') : s.Sizes ids' where
  asked := h.asked
  fits id p hp hid := h.fits id p hp fun hm => hid (hs hm)
  fresh := h.fresh
  own := h.own
  next := h.next

section Resize

variable (s) (id id' p : ℕ) (z : TermSize)

theorem pty_resize : (s.doLocal (.resize id z)).pty id' = s.pty id' := by
  simp only [doLocal, slot_note]
  cases h : s.slot id with
  | none => rfl
  | some slot =>
    simp only [pty, slot_send, slot_setSlot]
    split_ifs with he
    · rw [← he, h]
      rfl
    · rfl

theorem size_resize : (s.doLocal (.resize id z)).size id' =
    if id = id' then (s.size id).map fun _ => z else s.size id' := by
  simp only [doLocal, slot_note]
  cases h : s.slot id with
  | none =>
    split_ifs with he
    · simp [size, ← he, h]
    · rfl
  | some slot =>
    simp only [size, slot_send, slot_setSlot, h]
    split_ifs <;> rfl

theorem slot_resize_isSome :
    ((s.doLocal (.resize id z)).slot id').isSome = (s.slot id').isSome := by
  simp only [doLocal, slot_note]
  cases h : s.slot id with
  | none => rfl
  | some slot =>
    simp only [slot_send, slot_setSlot]
    split_ifs with he
    · rw [← he, h]
      rfl
    · rfl

theorem counters_resize : (s.doLocal (.resize id z)).nextPty = s.nextPty ∧
    (s.doLocal (.resize id z)).nextId = s.nextId := by
  simp only [doLocal, slot_note]
  cases s.slot id with
  | none => exact ⟨rfl, rfl⟩
  | some slot =>
    simp only [send]
    cases slot.pty <;> exact ⟨rfl, rfl⟩

/-- The resize is sent to the PTY of the terminal, and to no other. -/
theorem inForce_resize : inForce (s.doLocal (.resize id z)).log p =
    if s.pty id = some p then some z else inForce s.log p := by
  have hn : ∀ cmd, inForce (s.note (.handled cmd)).log p = inForce s.log p := fun _ =>
    inForce_note _ p
  rw [← hn (.resize id z)]
  cases h : s.slot id with
  | none => simp [doLocal, slot_note, pty, h]
  | some slot =>
    simp only [doLocal, slot_note, pty, h, send, Option.bind_some]
    cases hp : slot.pty with
    | none => rfl
    | some p' =>
      refine (inForce_note _ p).trans ?_
      simp only [givesSize, Option.some.injEq]
      split_ifs <;> rfl

end Resize

/-- A command that is handled meanwhile is noted as such. -/
theorem watch_doLocal (s : Terms) (cmd : TermCmd) (id : ℕ) :
    watch (s.doLocal cmd).log id = (watch s.log id).step id (.handled cmd) := by
  have hsend : ∀ (t : Terms) (slot : Slot) (msg : PtyIn),
      watch (t.send slot msg).log id = watch t.log id := by
    intro t slot msg
    unfold send
    cases slot.pty with
    | none => rfl
    | some p => exact watch_note _ id
  rw [← watch_note]
  cases cmd with
  | input id' d | resize id' z | close id' =>
    simp only [Terms.doLocal]
    split
    · exact hsend _ _ _
    · rfl
  | _ => rfl

/-- A resize that was handled is kept in the slot and sent to the PTY. -/
theorem Sizes.resize (h : s.Sizes ids) (id : ℕ) (z : TermSize) :
    (s.doLocal (.resize id z)).Sizes ids where
  asked id' z' hz := by
    rw [size_resize] at hz
    rw [watch_doLocal, Watch.step]
    split_ifs at hz ⊢ with he
    · obtain ⟨_, -, rfl⟩ := Option.map_eq_some_iff.mp hz
      rfl
    · exact h.asked id' z' hz
  fits id' p hp hid := by
    rw [pty_resize] at hp
    rw [watch_doLocal, inForce_resize, Watch.step]
    by_cases he : id = id'
    · subst he
      rw [if_pos rfl, if_pos hp]
      exact ⟨rfl, rfl, fun _ hz => hz⟩
    · rw [if_neg he, if_neg fun hp' => he (h.own id id' p hp' hp)]
      exact h.fits id' p hp hid
  fresh id' p hp := by
    rw [pty_resize] at hp
    rw [(counters_resize s id z).1]
    exact h.fresh id' p hp
  own id₁ id₂ p h₁ h₂ := by
    rw [pty_resize] at h₁ h₂
    exact h.own id₁ id₂ p h₁ h₂
  next id' hs := by
    rw [slot_resize_isSome] at hs
    rw [(counters_resize s id z).2]
    exact h.next id' hs

theorem Sizes.doLocal (h : s.Sizes ids) (cmd : TermCmd) : (s.doLocal cmd).Sizes ids := by
  cases cmd with
  | resize id z => exact h.resize id z
  | input id d =>
    have hn : (s.note (.handled (.input id d))).Sizes ids := h.note ⟨fun _ _ => rfl, fun _ => rfl⟩
    simp only [Terms.doLocal]
    split
    · exact hn.send fun _ => ⟨fun _ _ => rfl, fun _ => rfl⟩
    · exact hn
  | close id =>
    have hn : (s.note (.handled (.close id))).Sizes ids := h.note ⟨fun _ _ => rfl, fun _ => rfl⟩
    simp only [Terms.doLocal]
    split
    · exact (hn.mono (List.subset_cons_self id ids)).dropSlot.send
        fun _ => ⟨fun _ _ => rfl, fun _ => rfl⟩
    · exact hn
  | «open» spec reply =>
    exact Sizes.congr (s := s.note (.handled (.open spec reply)))
      (h.note ⟨fun _ _ => rfl, fun _ => rfl⟩) rfl rfl rfl rfl
  | retry => exact h.note ⟨fun _ _ => rfl, fun _ => rfl⟩
  | stop => exact h.note ⟨fun _ _ => rfl, fun _ => rfl⟩

/-- While an attach is under way: the size it was called with, and what was asked
for since. -/
structure Watch.InFlight (w : Watch) (z : TermSize) : Prop where
  started : w.started = some z
  asked : w.asked = w.sinceCall.or w.started

theorem Watch.InFlight.handled {w : Watch} {z : TermSize} (h : w.InFlight z) (id : ℕ)
    (cmd : TermCmd) : (w.step id (.handled cmd)).InFlight z := by
  cases cmd with
  | resize id' z' =>
    rw [Watch.step]
    split_ifs
    · exact ⟨h.started, rfl⟩
    · exact h
  | _ => exact h

/-- A PTY that was just attached for a terminal, and that no slot holds yet. -/
structure Attached (s : Terms) (id p : ℕ) (z : TermSize) : Prop where
  fits : (watch s.log id).Fits (inForce s.log p)
  started : (watch s.log id).started = some z
  success : (watch s.log id).sinceSuccess = none
  fresh : p < s.nextPty
  own : ∀ id', s.pty id' ≠ some p

theorem Attached.note {e : TermEffect} {id p : ℕ} {z : TermSize} (h : s.Attached id p z)
    (he : Neutral e) : (s.note e).Attached id p z := by
  have hw : watch (s.note e).log id = watch s.log id := (watch_note e id).trans (he.watch ..)
  refine ⟨?_, hw ▸ h.started, hw ▸ h.success, h.fresh, h.own⟩
  rw [hw, inForce_note, he.inForce]
  exact h.fits

/-- The call of an attach for a terminal whose size is the one last asked for. -/
theorem Sizes.call {id : ℕ} {spec : AttachSpec} (zellij : Option String) (h : s.Sizes ids)
    (hz : (watch s.log id).asked = some spec.size) :
    (s.note (.attach id spec zellij)).Sizes (id :: ids) ∧
      (watch (s.note (.attach id spec zellij)).log id).InFlight spec.size := by
  constructor
  · refine ⟨fun id' z hs => ?_, fun id' p hp hid => ?_, h.fresh, h.own, h.next⟩
    · rw [watch_note, Watch.step]
      split_ifs
      · exact h.asked id' z hs
      · exact h.asked id' z hs
    · rw [List.mem_cons, not_or] at hid
      obtain ⟨hne, hid⟩ := hid
      rw [watch_note, inForce_note, Watch.step, if_neg (Ne.symm hne)]
      exact h.fits id' p hp hid
  · rw [watch_note, Watch.step, if_pos rfl]
    exact ⟨rfl, hz⟩

theorem Sizes.attach {id generation : ℕ} {spec : AttachSpec} {r : Except OpenError ℕ}
    (h : s.Sizes ids) (hz : (watch s.log id).asked = some spec.size) (hup : s.link = .up)
    (ha : s.attach id generation spec = (s', some r)) :
    s'.Sizes (id :: ids) ∧ ∀ p, r = .ok p → s'.Attached id p spec.size := by
  have hbusy : Sizes { s with link := .busy } ids := h.congr rfl rfl rfl rfl
  have hcall := hbusy.call s.zellijPath hz
  obtain ⟨t, ht, he⟩ := attach_cases hup ha
  have hlent : t.Sizes (id :: ids) ∧ (watch t.log id).InFlight spec.size := by
    rw [ht]
    refine await_induct (P := fun u => u.Sizes (id :: ids) ∧ (watch u.log id).InFlight spec.size)
      (fun u cmd hu => ⟨hu.1.doLocal cmd, ?_⟩)
      (fun u script now hu => ⟨hu.1.congr rfl rfl rfl rfl, hu.2⟩) hcall
    rw [watch_doLocal]
    exact hu.2.handled id cmd
  obtain ⟨e, rfl, rfl⟩ | ⟨rfl, rfl⟩ := he
  · exact ⟨hlent.1.congr rfl rfl rfl rfl, fun p hp => by cases hp⟩
  obtain ⟨hs, hw⟩ := hlent
  set u : Terms := { t with link := .up, nextPty := t.nextPty + 1 }
  have hwatch : ∀ id', watch (u.note (.created t.nextPty id generation spec)).log id' =
      (watch t.log id').step id' (.created t.nextPty id generation spec) := fun id' =>
    watch_note (s := u) _ id'
  have hold : ∀ id' p, t.pty id' = some p → p ≠ t.nextPty := fun id' p hp =>
    Nat.ne_of_lt (hs.fresh id' p hp)
  constructor
  · refine ⟨fun id' z hz => ?_, fun id' p hp hid => ?_, fun id' p hp => ?_, hs.own, hs.next⟩
    · rw [hwatch, Watch.step]
      split_ifs
      · exact hs.asked id' z hz
      · exact hs.asked id' z hz
    · have hne : id ≠ id' := fun he => hid (he ▸ List.mem_cons_self)
      rw [hwatch, Watch.step, if_neg hne, inForce_note, givesSize, if_neg (hold id' p hp).symm]
      exact hs.fits id' p hp hid
    · exact Nat.lt_succ_of_lt (hs.fresh id' p hp)
  · rintro p hp
    cases hp
    have hw' := hwatch id
    rw [Watch.step, if_pos rfl] at hw'
    refine ⟨?_, by rw [hw']; exact hw.started, by rw [hw'], Nat.lt_succ_self _, fun id' hp => ?_⟩
    · rw [hw', inForce_note, givesSize, if_pos rfl]
      exact ⟨hw.started.symm, hw.asked, fun _ hn => by cases hn⟩
    · exact hold id' _ hp rfl

theorem pty_eq_none {id : ℕ} (h : s.slot id = none) : s.pty id = none := by rw [pty, h]; rfl

/-- A terminal without a PTY need not be excepted. -/
theorem Sizes.of_detached {id : ℕ} (h : s.Sizes (id :: ids)) (hp : s.pty id = none) :
    s.Sizes ids where
  asked := h.asked
  fits id' p hp' hid := by
    refine h.fits id' p hp' fun hm => ?_
    rcases List.mem_cons.mp hm with rfl | hm
    · rw [hp] at hp'
      cases hp'
    · exact hid hm
  fresh := h.fresh
  own := h.own
  next := h.next

theorem Sizes.emit (h : s.Sizes ids) (st : Option ConnState) : (s.emit st).Sizes ids :=
  h.note (.emit _ st)

theorem Sizes.idleIfEmpty (h : s.Sizes ids) : s.idleIfEmpty.Sizes ids := by
  unfold Terms.idleIfEmpty
  split_ifs
  · exact Sizes.emit (s := { s with link := .idle, upSince := none, backoff := s.backoff.reset })
      (h.congr rfl rfl rfl rfl) none
  · exact h

theorem Sizes.down (h : s.Sizes ids) (reason : String) : (s.down reason).Sizes ids := by
  have h' : ∀ backoff link, Sizes { s with backoff := backoff, link := link } ids :=
    fun _ _ => h.congr rfl rfl rfl rfl
  unfold Terms.down
  simp only
  split_ifs
  · exact (h' _ _).idleIfEmpty
  · exact (h' _ _).emit _

theorem Sizes.detach (h : s.Sizes ids) (hslot : ∀ id, s'.slot id = (s.slot id).map Slot.detach)
    (hwatch : ∀ id, watch s'.log id = watch s.log id) (hid : s'.nextId = s.nextId) :
    s'.Sizes [] := by
  have hpty : ∀ id, s'.pty id = none := by
    intro id
    rw [pty, hslot]
    cases s.slot id <;> rfl
  have hsize : ∀ id, s'.size id = s.size id := by
    intro id
    rw [size, hslot, size]
    cases s.slot id <;> rfl
  constructor
  · intro id z
    rw [hsize, hwatch]
    exact h.asked id z
  · intro id p hp
    cases (hpty id).symm.trans hp
  · intro id p hp
    cases (hpty id).symm.trans hp
  · intro id id' p hp
    cases (hpty id).symm.trans hp
  · intro id hs
    rw [hslot, Option.isSome_map] at hs
    exact hid ▸ h.next id hs

/-- Losing the connection detaches every terminal. -/
theorem Sizes.lost (h : s.Sizes ids) (reason : String) : (s.lost reason).Sizes [] := by
  have hwatch : ∀ (keys : List ℕ) id,
      watch (s.log ++ keys.map (TermEffect.owner · (.detached reason))) id = watch s.log id := by
    intro keys id
    rw [watch, List.foldl_append, List.foldl_map]
    exact List.foldl_fixed keys
  unfold Terms.lost
  refine Sizes.down (h.detach (fun id => ?_) (fun id => ?_) ?_) reason
  · exact ExtTreeMap.getElem?_map
  · exact hwatch _ id
  · rfl

/-- The PTY of an attach fills the slot of its terminal. -/
theorem Sizes.fill {id p : ℕ} {z : TermSize} {slot slot' : Slot} (h : s.Sizes (id :: ids))
    (ha : s.Attached id p z) (hs : s.slot id = some slot) (hp : slot'.pty = some p)
    (hz : slot'.spec = slot.spec) : (s.setSlot id slot').Sizes ids where
  asked id' z' hz' := by
    rw [size_setSlot] at hz'
    split_ifs at hz' with he
    · refine h.asked id' z' ?_
      rw [← hz', ← he, size, hs, hz]
      rfl
    · exact h.asked id' z' hz'
  fits id' p' hp' hid := by
    rw [pty_setSlot] at hp'
    split_ifs at hp' with he
    · rw [hp] at hp'
      cases hp'
      exact he ▸ ha.fits
    · refine h.fits id' p' hp' fun hm => ?_
      exact hid ((List.mem_cons.mp hm).resolve_left fun h => he h.symm)
  fresh id' p' hp' := by
    rw [pty_setSlot] at hp'
    split_ifs at hp'
    · rw [hp] at hp'
      cases hp'
      exact ha.fresh
    · exact h.fresh id' p' hp'
  own id₁ id₂ p' h₁ h₂ := by
    rw [pty_setSlot] at h₁ h₂
    split_ifs at h₁ h₂ with he₁ he₂ he₂
    · exact he₁.symm.trans he₂
    · exact (ha.own id₂ (h₂.trans (h₁.symm.trans hp))).elim
    · exact (ha.own id₁ (h₁.trans (h₂.symm.trans hp))).elim
    · exact h.own id₁ id₂ p' h₁ h₂
  next id' hs' := by
    rw [slot_setSlot] at hs'
    split_ifs at hs' with he
    · refine h.next id' ?_
      rw [← he, hs]
      rfl
    · exact h.next id' hs'

theorem Sizes.reattached {id generation p : ℕ} {z : TermSize} (h : s.Sizes (id :: ids))
    (ha : s.Attached id p z) : (s.reattached id generation p).Sizes ids := by
  unfold Terms.reattached
  cases hs : s.slot id with
  | none => exact (h.of_detached (pty_eq_none hs)).note ⟨fun _ _ => rfl, fun _ => rfl⟩
  | some slot =>
    refine Sizes.note (h.fill ha hs ?_ ?_) (.owner id .attached)
    · rfl
    · rfl

/-- An attach fails at once if the connection is not up. -/
theorem attach_of_not_up {id generation : ℕ} {spec : AttachSpec} (h : s.link ≠ .up) :
    s.attach id generation spec =
      (s, some (.error (.retry "terminal connection is down"))) := by
  rw [Terms.attach]
  cases hl : s.link with
  | up => exact (h hl).elim
  | _ => rfl

/-- Attaching a terminal again fills its slot, or loses the connection. -/
theorem Sizes.attach_again {id generation : ℕ} {slot : Slot} {r : Except OpenError ℕ}
    (h : s.Sizes ids) (hs : s.slot id = some slot)
    (ha : s.attach id generation slot.spec = (s', some r)) :
    s'.Sizes (id :: ids) ∧ ∀ p, r = .ok p → s'.Attached id p slot.spec.size := by
  by_cases hup : s.link = .up
  · refine h.attach (h.asked id _ ?_) hup ha
    rw [size, hs]
    rfl
  · rw [attach_of_not_up hup] at ha
    cases ha
    exact ⟨h.mono (List.subset_cons_self id ids), fun p hp => by cases hp⟩

theorem Sizes.attachAll {ks : List ℕ} (h : s.Sizes []) (hr : s.attachAll ks = (s', true)) :
    s'.Sizes [] := by
  induction ks generalizing s with
  | nil =>
    cases hr
    exact h.idleIfEmpty
  | cons id ks ih =>
    rw [Terms.attachAll] at hr
    cases hs : s.slot id with
    | none =>
      rw [hs] at hr
      exact ih h hr
    | some slot =>
      simp only [hs] at hr
      rcases ha : s.attach id (slot.generation + 1) slot.spec with ⟨t, _ | e | p⟩
      · rw [ha] at hr; cases hr
      all_goals
        obtain ⟨ht, hp⟩ := h.attach_again hs ha
        rw [ha] at hr
      · cases hr
        exact ht.lost _
      · exact ih (ht.reattached (hp p rfl)) hr

theorem Sizes.connect {r : Except OpenError Unit} (h : s.Sizes ids)
    (hr : s.connect = (s', some r)) : s'.Sizes ids := by
  have hk : (s.note .openTerminals).await.1.Sizes ids :=
    await_induct (P := fun t => t.Sizes ids) (fun t cmd ht => ht.doLocal cmd)
      (fun t script now ht => ht.congr rfl rfl rfl rfl) (h.note ⟨fun _ _ => rfl, fun _ => rfl⟩)
  rw [Terms.connect] at hr
  rcases ha : (s.note .openTerminals).await with ⟨t, _ | e | _⟩ <;> rw [ha] at hr hk <;> cases hr
  · exact hk
  · exact Sizes.emit (s := { t with link := .up, upSince := some t.now })
      (hk.congr rfl rfl rfl rfl) _

theorem Sizes.reconnect {order : List ℕ → List ℕ} (h : s.Sizes [])
    (hr : s.reconnect order = (s', true)) : s'.Sizes [] := by
  rw [Terms.reconnect] at hr
  rcases hc : s.connect with ⟨t, _ | (reason | p) | _⟩
  · rw [hc] at hr; cases hr
  all_goals
    have ht := h.connect hc
    simp only [hc] at hr
  · cases hr
    exact ht.down reason
  · cases hr
    have hd : Sizes { t with link := .down none (.needsUser p) } [] := ht.congr rfl rfl rfl rfl
    split_ifs
    · exact hd.idleIfEmpty
    · exact hd.emit _
  · exact ht.attachAll hr

theorem Sizes.connectIdle {r : Except TermError Unit} (h : s.Sizes [])
    (hr : s.connectIdle = (s', some r)) : s'.Sizes [] := by
  rw [Terms.connectIdle] at hr
  rcases hc : s.connect with ⟨t, _ | e | _⟩ <;> rw [hc] at hr <;> cases hr
  · exact Sizes.emit (s := { t with link := .idle }) ((h.connect hc).congr rfl rfl rfl rfl) _
  · exact h.connect hc

theorem Sizes.openLink {order : List ℕ → List ℕ} {r : Except TermError Unit} (h : s.Sizes [])
    (hr : s.openLink order = (s', some r)) : s'.Sizes [] := by
  rw [Terms.openLink] at hr
  cases hl : s.link with
  | idle =>
    rw [hl] at hr
    exact h.connectIdle hr
  | down at' e =>
    rw [hl] at hr
    rcases hc : s.reconnect order with ⟨t, _ | _⟩
    · simp only [hc] at hr; cases hr
    · have ht := h.reconnect hc
      simp only [hc] at hr
      cases hl' : t.link with
      | idle =>
        rw [hl'] at hr
        exact ht.connectIdle hr
      | _ =>
        rw [hl'] at hr
        cases hr
        exact ht
  | _ =>
    rw [hl] at hr
    cases hr
    exact h

/-- What one turn of the loop leaves: every PTY fits, and the sizes of the slots
are those last asked for unless a terminal was resized during its first attach. -/
structure Turned (s : Terms) : Prop where
  fitted : s.Fitted
  sizes : s.Timely → s.Sizes []

theorem Sizes.turned (h : s.Sizes []) : s.Turned :=
  ⟨fun id p hp => h.fits id p hp List.not_mem_nil, fun _ => h⟩

theorem Turned.note {e : TermEffect} (h : s.Turned) (he : Neutral e) : (s.note e).Turned where
  fitted id p hp := by
    rw [watch_note, he.watch, inForce_note, he.inForce]
    exact h.fitted id p hp
  sizes ht := by
    refine (h.sizes fun id p hp => ?_).note he
    have := ht id p hp
    rwa [watch_note, he.watch] at this

/-- The PTY of its first attach fills a new slot. -/
theorem Sizes.insert {id p : ℕ} {slot : Slot} (h : s.Sizes [])
    (ha : s.Attached id p slot.spec.size) (hp : slot.pty = some p) (hid : id < s.nextId) :
    (s.setSlot id slot).Turned := by
  have hfit : (s.setSlot id slot).Fitted := by
    intro id' p' hp'
    rw [pty_setSlot] at hp'
    split_ifs at hp' with he
    · rw [hp] at hp'
      cases hp'
      exact he ▸ ha.fits
    · exact h.fits id' p' hp' List.not_mem_nil
  refine ⟨hfit, fun ht => ⟨fun id' z hz => ?_, fun id' p' hp' _ => hfit id' p' hp',
    fun id' p' hp' => ?_, fun id₁ id₂ p' h₁ h₂ => ?_, fun id' hs => ?_⟩⟩
  · rw [size_setSlot] at hz
    split_ifs at hz with he
    · subst he
      have hp' : (s.setSlot id slot).pty id = some p := by rw [pty_setSlot, if_pos rfl, hp]
      -- Not resized during the attach, so it has the size of the spec.
      have hasked := (hfit id p hp').eq_asked_iff.mpr (ht id p hp')
      rw [← hasked, (hfit id p hp').inForce, ← hz]
      exact ha.success ▸ ha.started
    · exact h.asked id' z hz
  · rw [pty_setSlot] at hp'
    split_ifs at hp'
    · rw [hp] at hp'
      cases hp'
      exact ha.fresh
    · exact h.fresh id' p' hp'
  · rw [pty_setSlot] at h₁ h₂
    split_ifs at h₁ h₂ with he₁ he₂ he₂
    · exact he₁.symm.trans he₂
    · exact (ha.own id₂ (h₂.trans (h₁.symm.trans hp))).elim
    · exact (ha.own id₁ (h₁.trans (h₂.symm.trans hp))).elim
    · exact h.own id₁ id₂ p' h₁ h₂
  · rw [slot_setSlot] at hs
    split_ifs at hs with he
    · exact he ▸ hid
    · exact h.next id' hs

theorem nextId_doLocal (s : Terms) (cmd : TermCmd) : (s.doLocal cmd).nextId = s.nextId := by
  have hsend : ∀ (t : Terms) (slot : Slot) (msg : PtyIn), (t.send slot msg).nextId = t.nextId := by
    intro t slot msg
    unfold send
    cases slot.pty <;> rfl
  cases cmd with
  | input id d | resize id z | close id =>
    simp only [Terms.doLocal]
    split
    · exact hsend _ _ _
    · rfl
  | _ => rfl

theorem nextId_attach {id generation : ℕ} {spec : AttachSpec} {r : Except OpenError ℕ}
    (hup : s.link = .up) (h : s.attach id generation spec = (s', some r)) :
    s'.nextId = s.nextId := by
  have hlent : ({ s with link := Link.busy }.note (.attach id spec s.zellijPath)).await.1.nextId =
      s.nextId :=
    await_induct (P := fun t => t.nextId = s.nextId)
      (fun t cmd ht => (nextId_doLocal t cmd).trans ht) (fun _ _ _ ht => ht) rfl
  obtain ⟨t, rfl, ⟨e, -, rfl⟩ | ⟨-, rfl⟩⟩ := attach_cases hup h
  · exact hlent
  · exact hlent

/-- A new terminal has no slot yet. -/
theorem Sizes.opening (h : s.Sizes []) (spec : AttachSpec) :
    let s' := { s with nextId := s.nextId + 1 }.note (.opening s.nextId spec)
    s'.Sizes [] ∧ s'.slot s.nextId = none ∧ (watch s'.log s.nextId).asked = some spec.size := by
  intro s'
  have hnone : s.slot s.nextId = none := by
    cases hs : s.slot s.nextId with
    | none => rfl
    | some slot => exact absurd (h.next s.nextId (by rw [hs]; rfl)) (Nat.lt_irrefl _)
  have hwatch : ∀ id, (s.slot id).isSome → watch s'.log id = watch s.log id := by
    intro id hs
    refine (watch_note (s := { s with nextId := s.nextId + 1 }) _ id).trans ?_
    rw [Watch.step, if_neg]
    rintro rfl
    rw [hnone] at hs
    cases hs
  have hforce : ∀ p, inForce s'.log p = inForce s.log p := fun p =>
    inForce_note (s := { s with nextId := s.nextId + 1 }) _ p
  refine ⟨⟨fun id z hz => ?_, fun id p hp => ?_, h.fresh, h.own, fun id hs => ?_⟩, hnone, ?_⟩
  · rw [hwatch id (Option.isSome_map ▸ Option.isSome_of_eq_some hz)]
    exact h.asked id z hz
  · rw [hwatch id (Option.isSome_of_isSome_bind (Option.isSome_of_eq_some hp)), hforce]
    exact h.fits id p hp
  · exact Nat.lt_succ_of_lt (h.next id hs)
  · refine congrArg Watch.asked (watch_note (s := { s with nextId := s.nextId + 1 }) _ _) |>.trans ?_
    rw [Watch.step, if_pos rfl]

theorem Sizes.openTerminal {spec : AttachSpec} {order : List ℕ → List ℕ}
    {r : Except TermError ℕ} (h : s.Sizes []) (hr : s.openTerminal spec order = (s', some r)) :
    s'.Turned := by
  rw [Terms.openTerminal] at hr
  rcases hl : s.openLink order with ⟨t, _ | e | _⟩
  · rw [hl] at hr; cases hr
  all_goals
    have ht := h.openLink hl
    simp only [hl] at hr
  · cases hr
    exact ht.turned
  obtain ⟨hu, hnone, hz⟩ := ht.opening spec
  set u := { t with nextId := t.nextId + 1 }.note (.opening t.nextId spec) with hu'
  by_cases hup : u.link = .up
  · rcases ha : u.attach t.nextId 0 spec with ⟨v, _ | e | p⟩
    · rw [ha] at hr; cases hr
    all_goals
      obtain ⟨hv, hp⟩ := hu.attach hz hup ha
      have hnone' : v.slot t.nextId = none := by
        cases hs : v.slot t.nextId with
        | none => rfl
        | some slot =>
          obtain ⟨_, hs', -⟩ := (Kept.attach hup ha).slots _ _ hs
          rw [hnone] at hs'
          cases hs'
      have hv' := hv.of_detached (pty_eq_none hnone')
      rw [ha] at hr
      cases hr
    · exact hv'.idleIfEmpty.turned
    · have hid : t.nextId < v.nextId := (nextId_attach hup ha).symm ▸ Nat.lt_succ_self _
      exact Sizes.insert (hv'.note (.owner _ _)) ((hp p rfl).note (.owner _ _)) rfl hid
  · rw [attach_of_not_up hup] at hr
    cases hr
    exact hu.idleIfEmpty.turned

theorem Sizes.serveOpen {spec : AttachSpec} {reply : ℕ} {order : List ℕ → List ℕ}
    (h : s.Sizes []) (hr : s.serveOpen spec reply order = (s', true)) : s'.Turned := by
  rw [Terms.serveOpen] at hr
  rcases ho : s.openTerminal spec order with ⟨t, _ | r⟩ <;> rw [ho] at hr <;> cases hr
  exact (h.openTerminal ho).note ⟨fun _ _ => rfl, fun _ => rfl⟩

theorem Sizes.detachOne {id : ℕ} {slot slot' : Slot} (h : s.Sizes ids)
    (hs : s.slot id = some slot) (hp : slot'.pty = none) (hz : slot'.spec = slot.spec) :
    (s.setSlot id slot').Sizes ids where
  asked id' z' hz' := by
    rw [size_setSlot] at hz'
    split_ifs at hz' with he
    · refine h.asked id' z' ?_
      rw [← hz', ← he, size, hs, hz]
      rfl
    · exact h.asked id' z' hz'
  fits id' p' hp' hid := by
    rw [pty_setSlot] at hp'
    split_ifs at hp'
    · cases hp.symm.trans hp'
    · exact h.fits id' p' hp' hid
  fresh id' p' hp' := by
    rw [pty_setSlot] at hp'
    split_ifs at hp'
    · cases hp.symm.trans hp'
    · exact h.fresh id' p' hp'
  own id₁ id₂ p' h₁ h₂ := by
    rw [pty_setSlot] at h₁ h₂
    split_ifs at h₁ h₂
    · cases hp.symm.trans h₁
    · cases hp.symm.trans h₁
    · cases hp.symm.trans h₂
    · exact h.own id₁ id₂ p' h₁ h₂
  next id' hs' := by
    rw [slot_setSlot] at hs'
    split_ifs at hs' with he
    · refine h.next id' ?_
      rw [← he, hs]
      rfl
    · exact h.next id' hs'

theorem Sizes.channelEnded {id : ℕ} (h : s.Sizes []) (hr : s.channelEnded id = (s', true)) :
    s'.Sizes [] := by
  rw [Terms.channelEnded] at hr
  cases hs : s.slot id with
  | none =>
    rw [hs] at hr
    cases hr
    exact h
  | some slot =>
    simp only [hs] at hr
    generalize (if s.now - slot.attachedAt < stableAfter then slot.quickEnds + 1 else 0) = q at hr
    set slot' : Slot := { slot with pty := none, quickEnds := q } with hslot'
    have hd : (s.setSlot id slot').Sizes [] := h.detachOne hs rfl rfl
    split_ifs at hr with hq
    · cases hr
      refine Sizes.idleIfEmpty (Sizes.dropSlot ?_)
      exact (hd.note (.owner _ _)).mono (List.nil_subset _)
    · set u := (s.setSlot id slot').note (.owner id (.detached "terminal channel closed"))
      have hu : u.Sizes [] := hd.note (.owner _ _)
      have hs' : u.slot id = some slot' := by
        refine (slot_setSlot s id id slot').trans ?_
        rw [if_pos rfl]
      rcases ha : u.attach id (slot.generation + 1) slot.spec with ⟨t, _ | e | p⟩
      · rw [ha] at hr; cases hr
      all_goals
        obtain ⟨ht, hp⟩ := hu.attach_again hs' ha
        rw [ha] at hr
        cases hr
      · exact ht.lost _
      · exact (ht.reattached (hp p rfl)).idleIfEmpty

theorem Sizes.output {id generation : ℕ} {out : Option PtyOut} {alive : Bool} (h : s.Sizes [])
    (hr : s.output id generation out alive = (s', true)) : s'.Sizes [] := by
  unfold Terms.output at hr
  cases hs : s.slot id with
  | none =>
    rw [hs] at hr
    cases hr
    exact h
  | some slot =>
    simp only [hs] at hr
    by_cases hg : (slot.generation ≠ generation || slot.pty.isNone) = true
    · rw [if_pos hg] at hr
      cases hr
      exact h
    rw [if_neg hg] at hr
    rcases out with _ | d | status
    · simp only at hr
      split_ifs at hr
      · exact h.channelEnded hr
      · cases hr
        exact h.lost _
    · cases hr
      exact h.note (.owner _ _)
    · cases hr
      refine Sizes.idleIfEmpty (Sizes.dropSlot ?_)
      exact (h.note (.owner _ _)).mono (List.nil_subset _)

theorem Sizes.command {cmd : Option TermCmd} {order : List ℕ → List ℕ} (h : s.Sizes [])
    (hr : s.command cmd order = (s', true)) : s'.Turned := by
  cases cmd with
  | none => cases hr
  | some cmd =>
    have hn : (s.note (.handled cmd)).Sizes [] ∨ ∃ id z, cmd = .resize id z := by
      cases cmd with
      | resize id z => exact .inr ⟨id, z, rfl⟩
      | _ => exact .inl (h.note ⟨fun _ _ => rfl, fun _ => rfl⟩)
    cases cmd with
    | «open» spec reply => exact Sizes.serveOpen (hn.resolve_right (by simp)) hr
    | retry =>
      have hn := hn.resolve_right (by simp)
      simp only [Terms.command] at hr
      cases hl : (s.note (.handled .retry)).link with
      | down at' e =>
        rw [hl] at hr
        exact (hn.reconnect hr).turned
      | _ =>
        rw [hl] at hr
        cases hr
        exact hn.turned
    | stop => cases hr
    | _ =>
      cases hr
      exact (h.doLocal _).idleIfEmpty.turned

theorem Sizes.body {turn : Turn} (h : s.Sizes []) (hr : s.body turn = (s', true)) :
    s'.Turned := by
  unfold Terms.body at hr
  cases hp : s.pending with
  | cons p pending =>
    rw [hp] at hr
    have h' : Sizes { s with pending := pending } [] := h.congr rfl rfl rfl rfl
    exact h'.serveOpen hr
  | nil =>
    rw [hp] at hr
    cases hw : turn.wake with
    | command cmd =>
      rw [hw] at hr
      exact h.command hr
    | output id generation out alive =>
      rw [hw] at hr
      exact (h.output hr).turned
    | timer =>
      rw [hw] at hr
      simp only at hr
      split_ifs at hr
      · exact (h.reconnect hr).turned
      · cases hr
        exact h.turned

theorem Sizes.step {turn : Turn} (h : s.Sizes []) (he : (s.step turn).ended = false) :
    (s.step turn).Turned := by
  unfold Terms.step at he ⊢
  split_ifs at he ⊢
  · exact h.turned
  have h' : Sizes { s with now := s.now + turn.elapsed, script := turn.script } [] :=
    h.congr rfl rfl rfl rfl
  rcases hb : Terms.body { s with now := s.now + turn.elapsed, script := turn.script } turn with
    ⟨t, _ | _⟩
  · rw [hb] at he
    cases he
  · exact h'.body hb

theorem init_sizes (cfg : HostConfig) : (init cfg).Sizes [] := by
  have hs : ∀ id, (init cfg).slot id = none := fun id => slot_init id cfg
  refine ⟨fun id z h => ?_, fun id p h => ?_, fun id p h => ?_, fun id id' p h => ?_, fun id h => ?_⟩
  · rw [size, hs] at h
    cases h
  · rw [pty, hs] at h
    cases h
  · rw [pty, hs] at h
    cases h
  · rw [pty, hs] at h
    cases h
  · rw [hs] at h
    cases h

/-- A turn leaves its terminals fitted if no earlier turn left one resized during
its attach. -/
theorem run_turned (cfg : HostConfig) (turns : List Turn)
    (h : ∀ ts, ts <+: turns → ts ≠ turns → (run cfg ts).ended = false → (run cfg ts).Timely)
    (he : (run cfg turns).ended = false) : (run cfg turns).Turned := by
  induction turns using List.reverseRecOn with
  | nil => exact (init_sizes cfg).turned
  | append_singleton turns turn ih =>
    have hstep : run cfg (turns ++ [turn]) = (run cfg turns).step turn := List.foldl_concat ..
    rw [hstep] at he ⊢
    have he' := ended_of_step he
    have hturned : (run cfg turns).Turned := by
      refine ih (fun ts hts hne => h ts (hts.trans (List.prefix_append ..)) ?_) he'
      rintro rfl
      exact absurd hts.length_le (by simp)
    have htimely := h turns (List.prefix_append ..) (by simp) he'
    exact (hturned.sizes htimely).step he

theorem Turned.sized_iff (h : s.Turned) : s.Sized ↔ s.Timely := by
  constructor
  · intro hs id p hp
    exact (h.fitted id p hp).eq_asked_iff.mp (hs id p hp)
  · intro ht id p hp
    exact (h.fitted id p hp).eq_asked_iff.mpr (ht id p hp)

/-- Throughout a run every attached terminal has the size last asked for it, if and
only if throughout it no attached terminal was overtaken by a resize while its
attach was under way. -/
theorem run_sized_iff (cfg : HostConfig) (turns : List Turn) :
    (∀ ts, ts <+: turns → (run cfg ts).ended = false → (run cfg ts).Sized) ↔
      ∀ ts, ts <+: turns → (run cfg ts).ended = false → (run cfg ts).Timely := by
  constructor
  · intro h
    -- By induction on the prefix: its own prefixes are timely already.
    suffices hall : ∀ us, us <+: turns → ∀ ts, ts <+: us → (run cfg ts).ended = false →
        (run cfg ts).Timely from hall turns (List.prefix_refl turns)
    intro us
    induction us using List.reverseRecOn with
    | nil =>
      intro hus ts hts he
      have hts' := hts.trans hus
      refine (run_turned cfg ts (fun vs hvs hne => ?_) he).sized_iff.mp (h ts hts' he)
      rw [List.prefix_nil] at hts
      subst hts
      exact (hne (List.prefix_nil.mp hvs)).elim
    | append_singleton us turn ih =>
      intro hus ts hts he
      have ih := ih ((List.prefix_append us [turn]).trans hus)
      refine (run_turned cfg ts (fun vs hvs hne he' => ?_) he).sized_iff.mp (h ts (hts.trans hus) he)
      have hlen : vs.length < ts.length :=
        Nat.lt_of_le_of_ne hvs.length_le fun hl => hne (hvs.eq_of_length hl)
      refine ih vs (List.prefix_of_prefix_length_le (hvs.trans hts) (List.prefix_append ..) ?_) he'
      have := hts.length_le
      rw [List.length_append, List.length_singleton] at this
      omega
  · intro h ts hts he
    exact (run_turned cfg ts (fun vs hvs _ => h vs (hvs.trans hts)) he).sized_iff.mpr (h ts hts he)

/-- A terminal's channel closes, and the terminal is resized while it is attached again. -/
def resizedTurns : List Turn := [
  ⟨0, .command (some (.open ⟨"work", false, ⟨80, 24⟩⟩ 7)),
    [⟨[], 5, none, some (.ok ())⟩, ⟨[], 5, none, some (.ok ())⟩], id, List.Perm.refl⟩,
  ⟨40000, .output 1 0 none true, [⟨[.resize 1 ⟨100, 30⟩], 5, none, some (.ok ())⟩],
    id, List.Perm.refl⟩]

theorem not_sized_resized :
    ¬∀ (cfg : HostConfig) (turns : List Turn),
      (run cfg turns).ended = false → (run cfg turns).Sized := by
  intro h
  have hs := h ⟨"h", .localHost, none⟩ resizedTurns (by decide) 1 1 (by decide)
  have hforce : inForce (run ⟨"h", .localHost, none⟩ resizedTurns).log 1 = some ⟨80, 24⟩ := by decide
  have hasked : (watch (run ⟨"h", .localHost, none⟩ resizedTurns).log 1).asked =
      some ⟨100, 30⟩ := by decide
  rw [hforce, hasked] at hs
  exact absurd hs (by decide)

end MultiAi.Terms
