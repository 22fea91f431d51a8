import MultiAi.Terms.Shape
import Mathlib.Logic.Relation

/-! # The moves of the terminal task

A turn is a chain of small moves, between which the task may wait for an attempt or serve a
caller. What every move preserves holds at the top of the loop.
-/

namespace MultiAi.Terms

open Std Relation

/-- The attach that is under way. -/
inductive Flight where
  | none
  /-- A terminal attaches again, with this generation. -/
  | again (id generation : ℕ)
  | new (id : ℕ) (spec : AttachSpec)
  /-- A terminal could not attach again. -/
  | failed
  deriving DecidableEq, Repr

/-- What the task is doing within a turn. -/
inductive Doing where
  /-- It may serve the open of a caller, and an attach may be under way. -/
  | work (caller : Option ℕ) (flight : Flight)
  /-- The caller was answered; the turn is over. -/
  | answered
  /-- It was told to stop. -/
  | stopped
  deriving DecidableEq, Repr

/-- At the top of the loop. -/
def Doing.top : Doing := .work none .none

/-- A turn may end. -/
def Doing.over (d : Doing) : Prop := d = .top ∨ d = .answered

/-- The task may end. -/
def Doing.halted (d : Doing) : Prop := d = .stopped ∨ ∃ v f, d = .work v f

/-- The task was woken by an output of the PTY that a terminal is attached to. -/
structure Heard (w : Option Wake) (s : Terms) (id : ℕ) (slot : Slot) (out : Option PtyOut)
    (alive : Bool) : Prop where
  wake : w = some (.output id slot.generation out alive)
  found : s.slot id = some slot
  attached : slot.pty.isSome

/-- The count of quick ends of a terminal whose channel ends now. -/
def endsNow (s : Terms) (slot : Slot) : ℕ :=
  if s.now - slot.attachedAt < stableAfter then slot.quickEnds + 1 else 0

/-- An attach of the list fails while another terminal is attached. -/
def attachAllFails (s : Terms) : List ℕ → Prop
  | [] => False
  | id :: ids =>
    match s.slot id with
    | none => attachAllFails s ids
    | some slot =>
      match s.attach id (slot.generation + 1) slot.spec with
      | (_, none) => False
      | (s, some (.ok p)) => attachAllFails (s.reattached id (slot.generation + 1) p) ids
      | (s, some (.error _)) => ¬s.AllDetached

def reconnectFails (s : Terms) (order : List ℕ → List ℕ) : Prop :=
  match s.connect with
  | (s, some (.ok ())) => s.attachAllFails (order s.slots.keys)
  | _ => False

def openFails (s : Terms) (order : List ℕ → List ℕ) : Prop :=
  match s.link with
  | .down .. => s.reconnectFails order
  | _ => False

/-- The channel of a terminal ends, and it cannot attach again. -/
def channelFails (s : Terms) (id : ℕ) (slot : Slot) : Prop :=
  s.endsNow slot < maxQuickEnds ∧
    match ((s.setSlot id { slot with pty := none, quickEnds := s.endsNow slot }).note
      (.owner id (.detached "terminal channel closed"))).attach id (slot.generation + 1)
        slot.spec with
    | (s, some (.error _)) => ¬s.AllDetached
    | _ => False

def bodyFails (s : Terms) (turn : Turn) : Prop :=
  match s.pending with
  | _ :: pending => { s with pending := pending }.openFails turn.order
  | [] =>
    match turn.wake with
    | .command (some (.open spec reply)) =>
      (s.note (.handled (.open spec reply))).openFails turn.order
    | .command (some .retry) => (s.note (.handled .retry)).openFails turn.order
    | .command _ => False
    | .output id generation none alive =>
      ∃ slot, s.slot id = some slot ∧ slot.generation = generation ∧ slot.pty.isSome ∧
        s.link = .up ∧ alive = true ∧ s.channelFails id slot
    | .output .. => False
    | .timer => s.retryAt.any (· ≤ s.now) ∧ s.reconnectFails turn.order

/-- In the turn a terminal cannot attach again while another one is attached. -/
def reattachFails (s : Terms) (turn : Turn) : Prop :=
  bodyFails { s with now := s.now + turn.elapsed, script := turn.script } turn

/-- One move of the task that was woken by `w`, unless it serves a pending open. A terminal
that cannot attach again while another one is attached `fails`. -/
inductive Move (fails : Prop) (w : Option Wake) : Doing × Terms → Doing × Terms → Prop
  | waits {v : Option ℕ} {f : Flight} {s : Terms} (script : List Attempt) (now : ℕ) :
      Move fails w (.work v f, s) (.work v f, { s with script := script, now := now })
  | stops {v : Option ℕ} {f : Flight} {s : Terms} :
      Move fails w (.work v f, s) (.stopped, s.doLocal .stop)
  | handles {v : Option ℕ} {f : Flight} {s : Terms} (cmd : TermCmd) : cmd ≠ .stop →
      Move fails w (.work v f, s) (.work v f, s.doLocal cmd)
  | takes {s : Terms} {spec : AttachSpec} {reply : ℕ} : s.pending = [] →
      Move fails w (.top, s) (.work (some reply) .none, s.note (.handled (.open spec reply)))
  | pops {s : Terms} {spec : AttachSpec} {reply : ℕ} {pending : List (AttachSpec × ℕ)} :
      s.pending = (spec, reply) :: pending →
      Move fails w (.top, s) (.work (some reply) .none, { s with pending := pending })
  | dials {v : Option ℕ} {s : Terms} :
      Move fails w (.work v .none, s) (.work v .none, s.note .openTerminals)
  | connects {v : Option ℕ} {s : Terms} : s.AllDetached →
      Move fails w (.work v .none, s)
        (.work v .none, { s with link := .up, upSince := some s.now }.emit (some .up))
  | rests {v : Option ℕ} {s : Terms} {link : Link} {upSince : Option ℕ} {backoff : Backoff}
      {state : Option ConnState} : s.AllDetached → link ≠ .up → link ≠ .busy →
      Move fails w (.work v .none, s)
        (.work v .none, { s with link := link, upSince := upSince, backoff := backoff }.emit state)
  | loses {v : Option ℕ} {f : Flight} {s : Terms} (reason : String) :
      f = .failed ∨ f = .none ∧ (∃ id slot alive, Heard w s id slot none alive ∧
        ¬(s.link = .up ∧ alive = true)) →
      Move fails w (.work v f, s) (.work v .none, { s with
        slots := s.slots.map fun _ => Slot.detach
        log := s.log ++ s.slots.keys.map (TermEffect.owner · (.detached reason)) })
  | attachesAgain {v : Option ℕ} {s : Terms} {id : ℕ} {slot : Slot} {zellij : Option String} :
      s.link = .up → s.slot id = some slot → slot.pty = none →
      Move fails w (.work v .none, s) (.work v (.again id (slot.generation + 1)),
        { s with link := .busy }.note (.attach id slot.spec zellij))
  | attachesNew {reply : ℕ} {s : Terms} {spec : AttachSpec} {zellij : Option String} :
      s.link = .up →
      Move fails w (.work (some reply) .none, s) (.work (some reply) (.new s.nextId spec),
        ({ s with nextId := s.nextId + 1, link := .busy }.note (.opening s.nextId spec)).note
          (.attach s.nextId spec zellij))
  | failsAgain {v : Option ℕ} {s : Terms} {id g : ℕ} : fails ∨ s.AllDetached →
      Move fails w (.work v (.again id g), s) (.work v .failed, { s with link := .up })
  | failsNew {v : Option ℕ} {s : Terms} {id : ℕ} {spec : AttachSpec} :
      Move fails w (.work v (.new id spec), s) (.work v .none, { s with link := .up })
  | attachedAgain {v : Option ℕ} {s : Terms} {id g : ℕ} {spec : AttachSpec} :
      Move fails w (.work v (.again id g), s) (.work v .none,
        ({ s with link := .up, nextPty := s.nextPty + 1 }.note
          (.created s.nextPty id g spec)).reattached id g s.nextPty)
  | attachedNew {reply : ℕ} {s : Terms} {id : ℕ} {spec : AttachSpec} :
      Move fails w (.work (some reply) (.new id spec), s) (.answered,
        ((({ s with link := .up, nextPty := s.nextPty + 1 }.note
          (.created s.nextPty id 0 spec)).note (.owner id .attached)).setSlot id
            ⟨spec, some s.nextPty, 0, s.now, 0⟩).note (.reply reply (.ok id)))
  | refuses {reply : ℕ} {s : Terms} {e : TermError} :
      Move fails w (.work (some reply) .none, s) (.answered, s.note (.reply reply (.error e)))
  | delivers {s : Terms} {id : ℕ} {slot : Slot} {d : List UInt8} {alive : Bool} :
      Heard w s id slot (some (.data d)) alive →
      Move fails w (.top, s) (.top, s.note (.owner id (.output d)))
  | exits {s : Terms} {id : ℕ} {slot : Slot} {status : Option ℕ} {alive : Bool} :
      Heard w s id slot (some (.exit status)) alive →
      Move fails w (.top, s) (.top, (s.note (.owner id (.exited status))).dropSlot id)
  | givesUp {s : Terms} {id : ℕ} {slot : Slot} : Heard w s id slot none true → s.link = .up →
      maxQuickEnds ≤ s.endsNow slot →
      Move fails w (.top, s) (.top, (s.note (.owner id (.exited none))).dropSlot id)
  | closes {s : Terms} {id : ℕ} {slot : Slot} : Heard w s id slot none true → s.link = .up →
      s.endsNow slot < maxQuickEnds →
      Move fails w (.top, s) (.top,
        (s.setSlot id { slot with pty := none, quickEnds := s.endsNow slot }).note
          (.owner id (.detached "terminal channel closed")))

/-- What wakes the task in a turn; a pending open is served first. -/
def woken (s : Terms) (turn : Turn) : Option Wake :=
  if s.pending = [] then some turn.wake else none

abbrev Chain (fails : Prop) (w : Option Wake) : Doing × Terms → Doing × Terms → Prop :=
  ReflTransGen (Move fails w)

/-- A chain to the next thing to do, unless the task is to end. -/
def Leads (fails : Prop) (w : Option Wake) (a : Doing × Terms) (next : Doing) (t : Terms)
    (go : Bool) : Prop :=
  if go then Chain fails w a (next, t) else ∃ d, d.halted ∧ Chain fails w a (d, t)

section Chains

variable {F : Prop} {w : Option Wake} {v : Option ℕ} {f : Flight} {s s' t : Terms}
  {a b : Doing × Terms} {next : Doing} {go : Bool}

/-- Two slots with the same PTY. -/
structure SameSlot (slot slot' : Slot) : Prop where
  pty : slot'.pty = slot.pty
  generation : slot'.generation = slot.generation
  attachedAt : slot'.attachedAt = slot.attachedAt
  quickEnds : slot'.quickEnds = slot.quickEnds

/-- What a command that needs no connection does. -/
structure Handles (s : Terms) (cmd : TermCmd) (s' : Terms) : Prop where
  link : s'.link = s.link
  nextId : s'.nextId = s.nextId
  nextPty : s'.nextPty = s.nextPty
  now : s'.now = s.now
  ended : s'.ended = s.ended
  pending : s'.pending = s.pending ++ match cmd with
    | .open spec reply => [(spec, reply)]
    | _ => []
  log : ∃ sent, s'.log = s.log ++ .handled cmd :: sent ∧ (∀ x ∈ sent, ∃ p msg, x = .pty p msg) ∧
    ∀ p, .pty p .close ∈ sent →
      ∃ id slot, cmd = .close id ∧ s.slot id = some slot ∧ slot.pty = some p
  closed : ∀ id, cmd = .close id → s'.slot id = none ∧ ∀ slot p, s.slot id = some slot →
    slot.pty = some p → s'.log = s.log ++ [.handled cmd, .pty p .close]
  kept : ∀ id slot, s.slot id = some slot → cmd ≠ .close id →
    ∃ slot', s'.slot id = some slot' ∧ SameSlot slot slot'
  found : ∀ id slot', s'.slot id = some slot' → ∃ slot, s.slot id = some slot ∧ SameSlot slot slot'

theorem SameSlot.refl (slot : Slot) : SameSlot slot slot := ⟨rfl, rfl, rfl, rfl⟩

theorem send_eq (s : Terms) (slot : Slot) (msg : PtyIn) :
    s.send slot msg = { s with log := s.log ++ slot.pty.toList.map (.pty · msg) } := by
  unfold send
  cases slot.pty with
  | none => simp
  | some p => rfl

theorem sends (slot : Slot) (msg : PtyIn) :
    ∀ x ∈ slot.pty.toList.map (TermEffect.pty · msg), ∃ p, slot.pty = some p ∧ x = .pty p msg := by
  intro x hx
  obtain ⟨p, hp, rfl⟩ := List.mem_map.mp hx
  exact ⟨p, Option.mem_toList.mp hp, rfl⟩

/-- A command that changes no slot. -/
theorem handles_note {cmd : TermCmd} {sent : List TermEffect} (hc : ∀ id, cmd ≠ .close id)
    (ho : ∀ spec reply, cmd ≠ .open spec reply)
    (hsent : ∀ x ∈ sent, ∃ p msg, x = .pty p msg ∧ msg ≠ .close) :
    Handles s cmd { s.note (.handled cmd) with log := (s.note (.handled cmd)).log ++ sent } := by
  constructor
  case pending =>
    cases cmd with
    | «open» spec reply => exact absurd rfl (ho spec reply)
    | _ => exact (List.append_nil _).symm
  case log =>
    refine ⟨sent, List.append_assoc .., fun x hx => ?_, fun p hp => ?_⟩
    · obtain ⟨p, msg, rfl, -⟩ := hsent x hx
      exact ⟨p, msg, rfl⟩
    · obtain ⟨p', msg, heq, hmsg⟩ := hsent _ hp
      cases heq
      exact absurd rfl hmsg
  case closed => exact fun id h => absurd h (hc id)
  case kept => exact fun id slot h _ => ⟨slot, h, .refl slot⟩
  case found => exact fun id slot h => ⟨slot, h, .refl slot⟩
  all_goals rfl

theorem handles_doLocal (s : Terms) (cmd : TermCmd) : Handles s cmd (s.doLocal cmd) := by
  have hnote : s.note (.handled cmd) =
      { s.note (.handled cmd) with log := (s.note (.handled cmd)).log ++ [] } := by
    rw [List.append_nil]
  cases cmd with
  | input id data =>
    simp only [doLocal, slot_note]
    cases s.slot id with
    | none =>
      rw [hnote]
      exact handles_note (by simp) (by simp) (by simp)
    | some slot =>
      simp only [send_eq]
      refine handles_note (by simp) (by simp) fun x hx => ?_
      obtain ⟨p, -, rfl⟩ := sends slot _ x hx
      exact ⟨p, _, rfl, (by simp)⟩
  | resize id size =>
    simp only [doLocal, slot_note]
    cases hs : s.slot id with
    | none =>
      rw [hnote]
      exact handles_note (by simp) (by simp) (by simp)
    | some slot =>
      simp only [send_eq]
      set new : Slot := { slot with spec := { slot.spec with size := size } }
      have hslot (id' : ℕ) : ((s.note (.handled (.resize id size))).setSlot id new).slot id' =
          if id = id' then some new else s.slot id' := slot_setSlot ..
      constructor
      case pending => exact (List.append_nil _).symm
      case log =>
        refine ⟨_, List.append_assoc .., fun x hx => ?_, fun p hp => ?_⟩
        · obtain ⟨p, -, rfl⟩ := sends new _ x hx
          exact ⟨p, _, rfl⟩
        · obtain ⟨p', -, heq⟩ := sends new _ _ hp
          cases heq
      case closed => simp
      case kept =>
        intro id' slot' h' _
        by_cases he : id = id'
        · subst he
          cases hs.symm.trans h'
          exact ⟨new, (hslot id).trans (if_pos rfl), rfl, rfl, rfl, rfl⟩
        · exact ⟨slot', (hslot id').trans ((if_neg he).trans h'), .refl slot'⟩
      case found =>
        intro id' slot' h'
        by_cases he : id = id'
        · subst he
          cases h'.symm.trans ((hslot id).trans (if_pos rfl))
          exact ⟨slot, hs, rfl, rfl, rfl, rfl⟩
        · exact ⟨slot', (h'.symm.trans ((hslot id').trans (if_neg he))).symm, .refl slot'⟩
      all_goals rfl
  | close id =>
    simp only [doLocal, slot_note]
    cases hs : s.slot id with
    | none =>
      constructor
      case pending => exact (List.append_nil _).symm
      case log => exact ⟨[], rfl, (by simp), (by simp)⟩
      case closed =>
        rintro id' ⟨⟩
        exact ⟨hs, fun slot p h => absurd (hs.symm.trans h) (by simp)⟩
      case kept => exact fun id slot h _ => ⟨slot, h, .refl slot⟩
      case found => exact fun id slot h => ⟨slot, h, .refl slot⟩
      all_goals rfl
    | some slot =>
      simp only [send_eq]
      have hslot (id' : ℕ) : ((s.note (.handled (.close id))).dropSlot id).slot id' =
          if id = id' then none else s.slot id' := slot_dropSlot ..
      constructor
      case pending => exact (List.append_nil _).symm
      case log =>
        refine ⟨_, List.append_assoc .., fun x hx => ?_, fun p hp => ?_⟩
        · obtain ⟨p, -, rfl⟩ := sends slot _ x hx
          exact ⟨p, _, rfl⟩
        · obtain ⟨p', hslot, heq⟩ := sends slot _ _ hp
          cases heq
          exact ⟨id, slot, rfl, hs, hslot⟩
      case closed =>
        rintro id' ⟨⟩
        refine ⟨(hslot id).trans (if_pos rfl), fun slot' p h' hp => ?_⟩
        cases hs.symm.trans h'
        simp [dropSlot, note, hp]
      case kept =>
        intro id' slot' h' hne
        have he : id ≠ id' := fun e => hne (e ▸ rfl)
        exact ⟨slot', (hslot id').trans ((if_neg he).trans h'), .refl slot'⟩
      case found =>
        intro id' slot' h'
        have h := h'.symm.trans (hslot id')
        split_ifs at h
        exact ⟨slot', h.symm, .refl slot'⟩
      all_goals rfl
  | «open» spec reply =>
    constructor
    case log => exact ⟨[], rfl, (by simp), (by simp)⟩
    case closed => simp
    case kept => exact fun id slot h _ => ⟨slot, h, .refl slot⟩
    case found => exact fun id slot h => ⟨slot, h, .refl slot⟩
    all_goals rfl
  | retry =>
    rw [doLocal, hnote]
    exact handles_note (by simp) (by simp) (by simp)
  | stop =>
    rw [doLocal, hnote]
    exact handles_note (by simp) (by simp) (by simp)

/-- A terminal that attached again fills its slot, or its PTY is closed. -/
theorem reattached_cases (s : Terms) (id generation p : ℕ) :
    (∃ slot, s.slot id = some slot ∧ s.reattached id generation p =
      (s.setSlot id { slot with pty := some p, generation := generation, attachedAt := s.now }).note
        (.owner id .attached)) ∨
      s.slot id = none ∧ s.reattached id generation p = s.note (.pty p .close) := by
  unfold reattached
  cases hs : s.slot id with
  | none => exact Or.inr ⟨rfl, rfl⟩
  | some slot => exact Or.inl ⟨slot, rfl, rfl⟩

/-- A terminal that attached again holds its new PTY, or is gone and the PTY is closed. -/
theorem attachedAgain_cases (s : Terms) (id g : ℕ) (spec : AttachSpec) :
    let u := { s with link := .up, nextPty := s.nextPty + 1 }.note (.created s.nextPty id g spec)
    (∃ slot, s.slot id = some slot ∧ u.reattached id g s.nextPty =
      (u.setSlot id { slot with
        pty := some s.nextPty, generation := g, attachedAt := s.now }).note
          (.owner id .attached)) ∨
    s.slot id = none ∧ u.reattached id g s.nextPty = u.note (.pty s.nextPty .close) := by
  intro u
  exact reattached_cases u id g s.nextPty

theorem allDetached_of_empty (h : s.slots = ∅) : s.AllDetached := by
  intro id slot hs
  rw [(slots_eq_empty_iff s).mp h id] at hs
  cases hs

theorem halted_work : (Doing.work v f).halted := Or.inr ⟨v, f, rfl⟩

theorem Leads.head (h : Chain F w a b) (h' : Leads F w b next t go) :
    Leads F w a next t go := by
  cases go with
  | true => exact h.trans h'
  | false =>
    obtain ⟨d, hd, h'⟩ := h'
    exact ⟨d, hd, h.trans h'⟩

theorem leads_busy (cmds : List TermCmd) (s : Terms) :
    Leads F w (.work v f, s) (.work v f) (s.busy cmds).1 (s.busy cmds).2 := by
  induction cmds generalizing s with
  | nil => exact ReflTransGen.refl
  | cons cmd cmds ih =>
    by_cases hc : cmd = .stop
    · subst hc
      exact ⟨.stopped, Or.inl rfl, .single .stops⟩
    · have hnext : s.busy (cmd :: cmds) = (s.doLocal cmd).busy cmds := by
        cases cmd with
        | stop => exact absurd rfl hc
        | _ => rfl
      rw [hnext]
      exact .head (.single (.handles cmd hc)) (ih _)

theorem leads_await (v : Option ℕ) (f : Flight) (s : Terms) :
    Leads F w (.work v f, s) (.work v f) s.await.1 s.await.2.isSome := by
  unfold await
  cases hs : s.script with
  | nil => exact ⟨_, halted_work, .refl⟩
  | cons attempt script =>
    have hbusy := leads_busy (F := F) (w := w) (v := v) (f := f) attempt.cmds
      { s with script := script }
    have hwait : Move F w (.work v f, s) (.work v f, { s with script := script }) :=
      .waits script s.now
    simp only
    rcases hb : busy { s with script := script } attempt.cmds with ⟨t, _ | _⟩ <;> rw [hb] at hbusy
    · exact .head (.single hwait) hbusy
    · have hafter := (ReflTransGen.head hwait hbusy).tail
        (.waits t.script (t.now + attempt.elapsed))
      simp only
      cases attempt.outcome with
      | none => exact ⟨_, halted_work, hafter⟩
      | some r => exact hafter

theorem chain_idleIfEmpty (v : Option ℕ) (s : Terms) :
    Chain F w (.work v .none, s) (.work v .none, s.idleIfEmpty) := by
  unfold idleIfEmpty
  split_ifs with h
  · simp only [Bool.and_eq_true, ExtTreeMap.isEmpty_iff] at h
    exact .single (.rests (allDetached_of_empty h.1.1) nofun nofun)
  · exact .refl

/-- The connection goes down, or idle without terminals. -/
theorem chain_rest (hd : s.AllDetached) {retryAt : Option ℕ} {e : OpenError} {backoff : Backoff}
    {upSince : Option ℕ} {state : Option ConnState} :
    Chain F w (.work v .none, s) (.work v .none,
      let s := { s with link := .down retryAt e, upSince := upSince, backoff := backoff }
      if s.slots.isEmpty then s.idleIfEmpty else s.emit state) := by
  simp only
  split_ifs with h
  · unfold idleIfEmpty
    rw [if_pos (by simp [h])]
    exact .single (.rests hd nofun nofun)
  · exact .single (.rests hd nofun nofun)

theorem chain_lost {f : Flight} {reason : String}
    (h : f = .failed ∨ f = .none ∧ ∃ id slot alive, Heard w s id slot none alive ∧
      ¬(s.link = .up ∧ alive = true)) :
    Chain F w (.work v f, s) (.work v .none, s.lost reason) := by
  refine .head (.loses reason h) ?_
  refine chain_rest (fun id slot hs => ?_)
  obtain ⟨t, -, rfl⟩ := slot_map_detach (s := s) rfl hs
  rfl

theorem leads_connect (hd : s.AllDetached) :
    Leads F w (.work v .none, s) (.work v .none) s.connect.1 s.connect.2.isSome := by
  have hdial := Leads.head (.single .dials)
    (leads_await (F := F) (w := w) v .none (s.note .openTerminals))
  have hk : Kept s (s.note .openTerminals).await.1 := (Kept.note rfl s).trans (.await _)
  unfold connect
  rcases ha : (s.note .openTerminals).await with ⟨t, _ | e | _⟩ <;> rw [ha] at hdial hk
  · exact hdial
  · exact hdial
  · exact ReflTransGen.tail hdial (.connects (hk.allDetached hd))

/-- A terminal attaches again, unless told to stop. -/
theorem leads_attachAgain {id : ℕ} {slot : Slot} (hl : s.link = .up) (hs : s.slot id = some slot)
    (hp : slot.pty = none) :
    match s.attach id (slot.generation + 1) slot.spec with
    | (t, none) => ∃ d, d.halted ∧ Chain F w (.work v .none, s) (d, t)
    | (t, some (.error _)) => (¬t.AllDetached → F) →
      Chain F w (.work v .none, s) (.work v .failed, t)
    | (t, some (.ok p)) => Chain F w (.work v .none, s)
        (.work v .none, t.reattached id (slot.generation + 1) p) := by
  have hflight := Leads.head (.single (.attachesAgain hl hs hp)) (leads_await (F := F)
    (w := w) v (.again id (slot.generation + 1))
      ({ s with link := .busy }.note (.attach id slot.spec s.zellijPath)))
  unfold attach
  rw [hl]
  simp only
  rcases ha : ({ s with link := .busy }.note (.attach id slot.spec s.zellijPath)).await with
    ⟨t, _ | e | _⟩ <;> rw [ha] at hflight ⊢
  · exact hflight
  · intro hfails
    have hor : F ∨ t.AllDetached := by
      by_cases hd : t.AllDetached
      · exact Or.inr hd
      · exact Or.inl (hfails hd)
    exact ReflTransGen.tail hflight (.failsAgain hor)
  · exact ReflTransGen.tail hflight .attachedAgain

/-- The terminals of a list attach again, unless told to stop. -/
theorem leads_attachAll {ids : List ℕ} (hn : ids.Nodup) (hl : s.link = .up)
    (hd : ∀ id ∈ ids, ∀ slot, s.slot id = some slot → slot.pty = none)
    (hf : s.attachAllFails ids → F) :
    Leads F w (.work v .none, s) (.work v .none) (s.attachAll ids).1 (s.attachAll ids).2 := by
  induction ids generalizing s with
  | nil => exact chain_idleIfEmpty v s
  | cons id ids ih =>
    obtain ⟨hid, hn⟩ := List.nodup_cons.mp hn
    unfold attachAll
    unfold attachAllFails at hf
    cases hs : s.slot id with
    | none =>
      rw [hs] at hf
      exact ih hn hl (fun id' h => hd id' (List.mem_cons_of_mem _ h)) hf
    | some slot =>
      rw [hs] at hf
      have hchain := leads_attachAgain (F := F) (w := w) (v := v) hl hs
        (hd id List.mem_cons_self slot hs)
      simp only at hf ⊢
      rcases ha : s.attach id (slot.generation + 1) slot.spec with ⟨t, _ | e | p⟩ <;>
        rw [ha] at hchain hf
      · exact hchain
      · exact (hchain hf).trans (chain_lost (Or.inl rfl))
      · have hk := Kept.attach hl ha
        have hlink : (t.reattached id (slot.generation + 1) p).link = .up := by
          unfold reattached
          cases t.slot id <;> exact hk.link.trans hl
        refine .head hchain (ih hn hlink (fun id' h slot' hs' => ?_) hf)
        have hne : id ≠ id' := fun e => hid (e ▸ h)
        have ht : t.slot id' = some slot' := by
          rcases reattached_cases t id (slot.generation + 1) p with ⟨_, _, heq⟩ | ⟨_, heq⟩
          · rwa [heq, slot_note, slot_setSlot, if_neg hne] at hs'
          · rwa [heq] at hs'
        obtain ⟨slot₀, hs₀, hp₀⟩ := hk.slots id' slot' ht
        exact hp₀.trans (hd id' (List.mem_cons_of_mem _ h) slot₀ hs₀)

/-- A reconnect of terminals that are detached. -/
theorem leads_reconnect {order : List ℕ → List ℕ} (ho : ∀ ids, (order ids).Perm ids)
    (hd : s.AllDetached) (hf : s.reconnectFails order → F) :
    Leads F w (.work v .none, s) (.work v .none) (s.reconnect order).1
      (s.reconnect order).2 := by
  have hchain := leads_connect (F := F) (w := w) (v := v) hd
  unfold reconnect
  unfold reconnectFails at hf
  rcases hc : s.connect with ⟨t, _ | (reason | p) | _⟩ <;> rw [hc] at hchain hf
  · exact hchain
  all_goals
    rcases connect_cases hc with ⟨hr, hl, -, hs⟩ | ⟨⟨e, hr⟩, hk⟩ <;> cases hr
    simp only at hf ⊢
  · exact ReflTransGen.trans hchain (chain_rest (hk.allDetached hd))
  · exact ReflTransGen.trans hchain (chain_rest (hk.allDetached hd))
  · have hnodup : (order t.slots.keys).Nodup := (ho _).nodup_iff.mpr ExtTreeMap.nodup_keys
    refine .head hchain (leads_attachAll hnodup hl (fun id _ slot' hslot => ?_) hf)
    obtain ⟨slot, h, hp⟩ := hs id slot' hslot
    exact hp.trans (hd id slot h)

theorem leads_connectIdle (hd : s.AllDetached) :
    Leads F w (.work v .none, s) (.work v .none) s.connectIdle.1 s.connectIdle.2.isSome := by
  have hchain := leads_connect (F := F) (w := w) (v := v) hd
  unfold connectIdle
  rcases hc : s.connect with ⟨t, _ | e | _⟩ <;> rw [hc] at hchain
  · exact hchain
  · rcases connect_cases hc with ⟨hr, -⟩ | ⟨-, hk⟩
    · cases hr
    · exact ReflTransGen.tail hchain (.rests (hk.allDetached hd) nofun nofun)
  · exact hchain

theorem Shaped.detached_of_idle (hs : s.Shaped) (hl : s.link = .idle) : s.AllDetached := by
  obtain ⟨sh, hsh⟩ := hs
  obtain rfl : sh = .idle := by
    have heq := hsh.link_eq
    rwa [hl] at heq
  exact allDetached_of_empty hsh.2.1

theorem leads_openLink {order : List ℕ → List ℕ} (ho : ∀ ids, (order ids).Perm ids)
    (hs : s.Shaped) (hf : s.openFails order → F) :
    Leads F w (.work v .none, s) (.work v .none) (s.openLink order).1
      (s.openLink order).2.isSome := by
  unfold openLink
  unfold openFails at hf
  cases hl : s.link with
  | idle => exact leads_connectIdle (hs.detached_of_idle hl)
  | up => exact ReflTransGen.refl
  | busy => exact ReflTransGen.refl
  | down retryAt e =>
    rw [hl] at hf
    have hd := hs.allDetached hl
    have hchain := leads_reconnect (w := w) (v := v) ho hd hf
    simp only
    rcases hr : s.reconnect order with ⟨t, _ | _⟩ <;> rw [hr] at hchain
    · exact hchain
    · have ht := reconnect_shaped ho hd hr
      simp only
      cases hlt : t.link with
      | idle => exact .head hchain (leads_connectIdle (ht.detached_of_idle hlt))
      | _ => exact hchain

/-- A new terminal attaches and its caller is answered, unless told to stop. -/
theorem leads_attachNew (reply : ℕ) (spec : AttachSpec) (hl : s.link = .up) :
    match ({ s with nextId := s.nextId + 1 }.note (.opening s.nextId spec)).attach s.nextId 0
        spec with
    | (t, none) => ∃ d, d.halted ∧ Chain F w (.work (some reply) .none, s) (d, t)
    | (t, some (.error _)) =>
      Chain F w (.work (some reply) .none, s) (.work (some reply) .none, t)
    | (t, some (.ok p)) => Chain F w (.work (some reply) .none, s) (.answered,
        ((t.note (.owner s.nextId .attached)).setSlot s.nextId ⟨spec, some p, 0, t.now, 0⟩).note
          (.reply reply (.ok s.nextId))) := by
  generalize hu : { s with nextId := s.nextId + 1 }.note (.opening s.nextId spec) = u
  have hstart : Move F w (.work (some reply) .none, s) (.work (some reply) (.new s.nextId spec),
      { u with link := .busy }.note (.attach s.nextId spec u.zellijPath)) := by
    subst hu
    exact .attachesNew hl
  have hflight := Leads.head (.single hstart) (leads_await _ _ _)
  have hlink : u.link = .up := hu ▸ hl
  unfold attach
  rw [hlink]
  simp only
  rcases ha : ({ u with link := .busy }.note (.attach s.nextId spec u.zellijPath)).await with
    ⟨t, _ | e | _⟩ <;> rw [ha] at hflight ⊢
  · exact hflight
  · exact ReflTransGen.tail hflight .failsNew
  · exact ReflTransGen.tail hflight .attachedNew

/-- An open is answered, unless the task is told to stop. -/
theorem leads_serveOpen (spec : AttachSpec) (reply : ℕ) {order : List ℕ → List ℕ}
    (ho : ∀ ids, (order ids).Perm ids) (hs : s.Shaped) (hf : s.openFails order → F) :
    Leads F w (.work (some reply) .none, s) .answered (s.serveOpen spec reply order).1
      (s.serveOpen spec reply order).2 := by
  have hchain := leads_openLink (w := w) (v := some reply) ho hs hf
  unfold serveOpen openTerminal
  rcases hl : s.openLink order with ⟨t, _ | e | _⟩ <;> rw [hl] at hchain
  · exact hchain
  · exact ReflTransGen.tail hchain .refuses
  · have hup : t.link = .up := by
      rcases openLink_cases ho hs hl with ⟨-, hw⟩ | ⟨⟨e, hr⟩, -⟩
      · exact hw.link
      · cases hr
    have hnew := leads_attachNew (F := F) (w := w) reply spec hup
    simp only
    rcases ha : ({ t with nextId := t.nextId + 1 }.note (.opening t.nextId spec)).attach
      t.nextId 0 spec with ⟨u, _ | e | p⟩ <;> rw [ha] at hnew ⊢
    · obtain ⟨d, hd, hnew⟩ := hnew
      exact ⟨d, hd, ReflTransGen.trans hchain hnew⟩
    · exact (ReflTransGen.trans hchain (hnew.trans (chain_idleIfEmpty _ _))).tail .refuses
    · exact ReflTransGen.trans hchain hnew

theorem dropSlot_setSlot (s : Terms) (id : ℕ) (slot : Slot) (e : TermEffect) :
    ((s.setSlot id slot).note e).dropSlot id = (s.note e).dropSlot id := by
  have hslots : (s.slots.insert id slot).erase id = s.slots.erase id := by
    refine ExtTreeMap.ext_getElem? fun id' => ?_
    simp only [ExtTreeMap.getElem?_erase, ExtTreeMap.getElem?_insert]
    split_ifs <;> rfl
  simp only [dropSlot, setSlot, note, hslots]

/-- A terminal whose channel ended attaches again, unless told to stop. -/
theorem leads_closed {id : ℕ} {slot : Slot} (hl : s.link = .up) (hs : s.slot id = some slot)
    (hp : slot.pty = none)
    (hf : (match s.attach id (slot.generation + 1) slot.spec with
      | (s, some (.error _)) => ¬s.AllDetached
      | _ => False) → F) :
    match s.attach id (slot.generation + 1) slot.spec with
    | (t, none) => ∃ d, d.halted ∧ Chain F w (.top, s) (d, t)
    | (t, some (.ok p)) =>
      Chain F w (.top, s) (.top, (t.reattached id (slot.generation + 1) p).idleIfEmpty)
    | (t, some (.error e)) => Chain F w (.top, s) (.top, t.lost (reasonOf e)) := by
  have hagain := leads_attachAgain (F := F) (w := w) (v := none) hl hs hp
  rcases ha : s.attach id (slot.generation + 1) slot.spec with ⟨t, _ | e | p⟩ <;>
    rw [ha] at hagain hf
  · exact hagain
  · exact (hagain fun hd => hf hd).trans (chain_lost (Or.inl rfl))
  · exact hagain.trans (chain_idleIfEmpty _ _)

/-- The channel of a terminal ends while the connection is up. -/
theorem leads_channelEnded {id : ℕ} {slot : Slot} (h : Heard w s id slot none true)
    (hl : s.link = .up) (hf : s.channelFails id slot → F) :
    Leads F w (.top, s) .top (s.channelEnded id).1 (s.channelEnded id).2 := by
  have hq : (if s.now - slot.attachedAt < stableAfter then slot.quickEnds + 1 else 0) =
      s.endsNow slot := rfl
  unfold channelEnded
  unfold channelFails at hf
  simp only [h.found, hq]
  split_ifs with hmax
  · rw [dropSlot_setSlot]
    exact ReflTransGen.head (.givesUp h hl hmax) (chain_idleIfEmpty none _)
  · have hclose : Chain F w (.top, s) (.top, _) :=
      .single (.closes h hl (Nat.lt_of_not_le hmax))
    generalize hu : (s.setSlot id { slot with pty := none, quickEnds := s.endsNow slot }).note
      (.owner id (.detached "terminal channel closed")) = u at hclose hf ⊢
    have hslot : u.slot id = some { slot with pty := none, quickEnds := s.endsNow slot } := by
      rw [← hu, slot_note, slot_setSlot, if_pos rfl]
    have hclosed := leads_closed (F := F) (w := w) (hu ▸ hl : u.link = .up) hslot rfl
      fun hfail => hf ⟨Nat.lt_of_not_le hmax, hfail⟩
    simp only at hclosed
    rcases ha : u.attach id (slot.generation + 1) slot.spec with ⟨t, _ | e | p⟩ <;>
      rw [ha] at hclosed
    · obtain ⟨d, hd, hclosed⟩ := hclosed
      exact ⟨d, hd, hclose.trans hclosed⟩
    · exact hclose.trans hclosed
    · exact hclose.trans hclosed

theorem leads_output {id generation : ℕ} {out : Option PtyOut} {alive : Bool}
    (hw : w = some (.output id generation out alive))
    (hf : ∀ slot, Heard w s id slot none true → out = none → s.link = .up → alive = true →
      s.channelFails id slot → F) :
    Leads F w (.top, s) .top (s.output id generation out alive).1
      (s.output id generation out alive).2 := by
  unfold output
  cases hs : s.slot id with
  | none => exact ReflTransGen.refl
  | some slot =>
    simp only
    by_cases hg : (slot.generation ≠ generation || slot.pty.isNone) = true
    · rw [if_pos hg]
      exact ReflTransGen.refl
    · rw [if_neg hg]
      simp only [Bool.or_eq_true, decide_eq_true_eq, not_or, Bool.not_eq_true, ne_eq, not_not,
        Option.isNone_eq_false_iff] at hg
      obtain ⟨rfl, hpty⟩ := hg
      have h : Heard w s id slot out alive := ⟨hw, hs, hpty⟩
      rcases out with _ | d | status
      · simp only
        split_ifs with hup
        · rw [Bool.and_eq_true, decide_eq_true_eq] at hup
          obtain ⟨hl, rfl⟩ := hup
          exact leads_channelEnded h hl (hf slot h rfl hl rfl)
        · refine chain_lost (Or.inr ⟨rfl, id, slot, alive, h, ?_⟩)
          simpa using hup
      · exact ReflTransGen.single (.delivers h)
      · exact ReflTransGen.head (.exits h) (chain_idleIfEmpty none _)

theorem over_top : Doing.top.over := Or.inl rfl

theorem over_answered : Doing.answered.over := Or.inr rfl

theorem leads_command {cmd : Option TermCmd} {order : List ℕ → List ℕ}
    (ho : ∀ ids, (order ids).Perm ids) (hs : s.Shaped) (hp : s.pending = [])
    (hf : ∀ cmd', cmd = some cmd' → (cmd' = .retry ∨ ∃ spec reply, cmd' = .open spec reply) →
      (s.note (.handled cmd')).openFails order → F) :
    ∃ next, next.over ∧ Leads F w (.top, s) next (s.command cmd order).1
      (s.command cmd order).2 := by
  rcases cmd with _ | cmd
  · exact ⟨_, over_top, _, halted_work, .refl⟩
  · cases cmd with
    | «open» spec reply =>
      have hopen := leads_serveOpen (w := w) spec reply ho
        (hs.note (e := .handled (.open spec reply)) rfl) (hf _ rfl (Or.inr ⟨spec, reply, rfl⟩))
      exact ⟨_, over_answered, .head (.single (.takes hp)) hopen⟩
    | retry =>
      have hn : (s.note (.handled .retry)).Shaped := hs.note rfl
      have hhead : Move F w (.top, s) (.top, s.note (.handled .retry)) := .handles .retry (by simp)
      have hfail := hf _ rfl (Or.inl rfl)
      unfold openFails at hfail
      simp only [command]
      cases hl : (s.note (.handled .retry)).link with
      | down retryAt e =>
        rw [hl] at hfail
        exact ⟨_, over_top, .head (.single hhead)
          (leads_reconnect (v := none) ho (hn.allDetached hl) hfail)⟩
      | _ => exact ⟨_, over_top, ReflTransGen.single hhead⟩
    | stop => exact ⟨_, over_top, _, Or.inl rfl, .single .stops⟩
    | input id data =>
      exact ⟨_, over_top, .head (.single (.handles (.input id data) (by simp)))
        (chain_idleIfEmpty none _)⟩
    | resize id size =>
      exact ⟨_, over_top, .head (.single (.handles (.resize id size) (by simp)))
        (chain_idleIfEmpty none _)⟩
    | close id =>
      exact ⟨_, over_top, .head (.single (.handles (.close id) (by simp)))
        (chain_idleIfEmpty none _)⟩

theorem leads_body (turn : Turn) (hs : s.Shaped) (hf : s.bodyFails turn → F) :
    ∃ next, next.over ∧ Leads F (s.woken turn) (.top, s) next (s.body turn).1
      (s.body turn).2 := by
  unfold bodyFails at hf
  unfold body woken
  rcases hp : s.pending with _ | ⟨⟨spec, reply⟩, pending⟩ <;> rw [hp] at hf
  · simp only [if_true] at hf ⊢
    cases hw : turn.wake with
    | command cmd =>
      rw [hw] at hf
      refine leads_command turn.order_perm hs hp ?_
      rintro cmd' rfl (rfl | ⟨spec, reply, rfl⟩)
      · exact hf
      · exact hf
    | output id generation out alive =>
      rw [hw] at hf
      refine ⟨_, over_top, leads_output rfl ?_⟩
      rintro slot hheard rfl hl rfl hfail
      obtain ⟨hwake, hfound, hattached⟩ := hheard
      cases hwake
      exact hf ⟨slot, hfound, rfl, hattached, hl, rfl, hfail⟩
    | timer =>
      rw [hw] at hf
      simp only
      split_ifs with hr
      · cases hl : s.link with
        | down retryAt e =>
          exact ⟨_, over_top, leads_reconnect turn.order_perm (hs.allDetached hl)
            fun hfail => hf ⟨hr, hfail⟩⟩
        | _ => simp [retryAt, hl] at hr
      · exact ⟨_, over_top, ReflTransGen.refl⟩
  · have hs' : Shaped { s with pending := pending } := hs.same rfl rfl rfl
    exact ⟨_, over_answered, .head (.single (.pops hp))
      (leads_serveOpen spec reply turn.order_perm hs' hf)⟩

/-- A turn is a chain of moves; the task goes on after it, or closes every PTY. -/
theorem chain_step (turn : Turn) (hs : s.Shaped) (he : s.ended = false) :
    ∃ d t, Chain (s.reattachFails turn) (s.woken turn) (.top, s) (d, t) ∧
      (d.over ∧ s.step turn = t ∨ d.halted ∧ s.step turn = t.closeAll) := by
  have hs' : Shaped { s with now := s.now + turn.elapsed, script := turn.script } :=
    hs.same rfl rfl rfl
  obtain ⟨next, hover, hchain⟩ := leads_body (F := s.reattachFails turn) turn hs' id
  replace hchain : Leads (s.reattachFails turn) (s.woken turn) (.top, s) next _ _ :=
    .head (.single (.waits turn.script (s.now + turn.elapsed))) hchain
  unfold step
  rw [if_neg (by simp [he])]
  rcases hb : body { s with now := s.now + turn.elapsed, script := turn.script } turn with
    ⟨t, _ | _⟩ <;> rw [hb] at hchain
  · obtain ⟨d, hd, hchain⟩ := hchain
    exact ⟨d, t, hchain, Or.inr ⟨hd, rfl⟩⟩
  · exact ⟨next, t, hchain, Or.inl ⟨hover, rfl⟩⟩

theorem Move.ended (h : Move F w a b) : b.2.ended = a.2.ended := by
  cases h with
  | handles cmd => exact (handles_doLocal _ cmd).ended
  | attachedAgain =>
    simp only [reattached]
    split <;> rfl
  | _ => rfl

end Chains

section Runs

/-- What every move preserves, a chain does. -/
theorem chain_rule {I : Doing → Terms → Prop} {fails : Prop} {w : Option Wake}
    (hmove : ∀ a b, Move fails w a b → I a.1 a.2 → I b.1 b.2) {a b : Doing × Terms}
    (h : Chain fails w a b) (ha : I a.1 a.2) : I b.1 b.2 := by
  induction h with
  | refl => exact ha
  | tail _ hm ih => exact hmove _ _ hm ih

theorem shaped_run {cfg : HostConfig} {turns : List Turn} (he : (run cfg turns).ended = false) :
    (run cfg turns).Shaped := by
  obtain ⟨⟨sh, hsh, -⟩, -⟩ := run_shaped cfg turns he
  exact ⟨sh, hsh⟩

theorem run_concat (cfg : HostConfig) (turns : List Turn) (turn : Turn) :
    run cfg (turns ++ [turn]) = (run cfg turns).step turn := List.foldl_concat ..

/-- The rule of runs: what every move preserves, and the end of a turn does, holds at the top of
the loop, and before the task closes every PTY. -/
theorem run_rule {I : Doing → Terms → Prop} (cfg : HostConfig) (hinit : I .top (init cfg))
    (hmove : ∀ fails w a b, Move fails w a b → I a.1 a.2 → I b.1 b.2)
    (hturn : ∀ s, I .answered s → I .top s) (turns : List Turn) :
    ((run cfg turns).ended = false → I .top (run cfg turns)) ∧
      ((run cfg turns).ended = true → ∃ d t, d.halted ∧ I d t ∧ run cfg turns = t.closeAll) := by
  induction turns using List.reverseRecOn with
  | nil => exact ⟨fun _ => hinit, nofun⟩
  | append_singleton turns turn ih =>
    rw [run_concat]
    cases he : (run cfg turns).ended with
    | true =>
      have hstep : (run cfg turns).step turn = run cfg turns := by rw [step, if_pos he]
      rw [hstep]
      exact ⟨fun h => absurd (he.symm.trans h) nofun, ih.2⟩
    | false =>
      obtain ⟨d, t, hc, hend⟩ := chain_step turn (shaped_run he) he
      have ht : I d t := chain_rule (hmove _ _) hc (ih.1 he)
      have het : t.ended = false :=
        chain_rule (I := fun _ s => s.ended = false) (fun a b hm ha => hm.ended.trans ha) hc he
      rcases hend with ⟨rfl | rfl, hstep⟩ | ⟨hd, hstep⟩ <;> rw [hstep]
      · exact ⟨fun _ => ht, fun h => absurd (h.symm.trans het) nofun⟩
      · exact ⟨fun _ => hturn t ht, fun h => absurd (h.symm.trans het) nofun⟩
      · exact ⟨nofun, fun _ => ⟨d, t, hd, ht, rfl⟩⟩

end Runs

end MultiAi.Terms
