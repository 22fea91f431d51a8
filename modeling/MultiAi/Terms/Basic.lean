import MultiAi.Host.State
import MultiAi.Library.Log
import MultiAi.Library.Machine

/-! # Terminal task

One task per host owns the terminal connection and its PTYs. Awaits are modelled
by a script: each attempt to connect or attach lists the commands handled while
it is in flight and how it ends. Whatever the task sends is appended to its log.
-/

namespace MultiAi

open Std

structure TermSize where
  cols : ℕ
  rows : ℕ
  deriving DecidableEq, Repr

structure AttachSpec where
  session : String
  create : Bool
  size : TermSize
  deriving DecidableEq, Repr

/-- Sent to a PTY. -/
inductive PtyIn where
  | data (d : List UInt8)
  | resize (size : TermSize)
  | close
  deriving DecidableEq, Repr

/-- Received from a PTY. -/
inductive PtyOut where
  | data (d : List UInt8)
  | exit (status : Option ℕ)
  deriving DecidableEq, Repr

/-- Sent to the owner of a terminal. -/
inductive TermEvent where
  | output (d : List UInt8)
  | attached
  | detached (reason : String)
  | exited (status : Option ℕ)
  deriving DecidableEq, Repr

inductive TermError where
  | noHost
  | badSession (name : String)
  | open (e : OpenError)
  | stopped
  deriving DecidableEq, Repr

/-- A command of the terminal task; an `open` names the channel of its reply. -/
inductive TermCmd where
  | open (spec : AttachSpec) (reply : ℕ)
  | input (id : ℕ) (data : List UInt8)
  | resize (id : ℕ) (size : TermSize)
  | close (id : ℕ)
  | retry
  | stop
  deriving DecidableEq, Repr

/-- A terminal whose channel keeps closing soon after attaching is given up on
after this many such closes in a row. -/
def maxQuickEnds : ℕ := 3

structure Slot where
  spec : AttachSpec
  /-- `none` while detached. -/
  pty : Option ℕ
  generation : ℕ
  attachedAt : ℕ
  quickEnds : ℕ
  deriving DecidableEq, Repr

def Slot.detach (slot : Slot) : Slot := { slot with pty := none }

inductive Link where
  /-- No terminals, no connection. -/
  | idle
  | up
  /-- Lent to an attach that is under way. -/
  | busy
  /-- Lost; reconnect at `retryAt`, or on `retry` if `none`. -/
  | down (retryAt : Option ℕ) (error : OpenError)
  deriving DecidableEq, Repr

/-- What the task does that others see, and the commands it handles. -/
inductive TermEffect where
  | emit (hostId : String) (state : Option ConnState)
  | owner (id : ℕ) (ev : TermEvent)
  | pty (p : ℕ) (msg : PtyIn)
  | reply (reply : ℕ) (r : Except TermError ℕ)
  | handled (cmd : TermCmd)
  /-- The terminal of this id is opened for a spec. -/
  | opening (id : ℕ) (spec : AttachSpec)
  | openTerminals
  | attach (id : ℕ) (spec : AttachSpec) (zellij : Option String)
  /-- An attach succeeded with a new PTY. -/
  | created (p id generation : ℕ) (spec : AttachSpec)

/-- One await of the task: the commands it handles meanwhile, how long it takes,
the zellij path the probe reported, and its outcome (`none` if the command
channel closes). -/
structure Attempt where
  cmds : List TermCmd
  elapsed : ℕ
  found : Option String
  outcome : Option (Except OpenError Unit)

/-- The state of the terminal task: the fields of the source and, from `now` on,
its environment. -/
structure Terms where
  cfg : HostConfig
  link : Link
  slots : ExtTreeMap ℕ Slot
  pending : List (AttachSpec × ℕ)
  nextId : ℕ
  backoff : Backoff
  upSince : Option ℕ
  now : ℕ
  script : List Attempt
  nextPty : ℕ
  log : List TermEffect
  ended : Bool

namespace Terms

def init (cfg : HostConfig) : Terms where
  cfg := cfg
  link := .idle
  slots := ∅
  pending := []
  nextId := 1
  backoff := .default
  upSince := none
  now := 0
  script := []
  nextPty := 0
  log := []
  ended := false

def slot (s : Terms) (id : ℕ) : Option Slot := s.slots[id]?

def note (s : Terms) (e : TermEffect) : Terms := { s with log := s.log ++ [e] }

def emit (s : Terms) (state : Option ConnState) : Terms := s.note (.emit s.cfg.id state)

def setSlot (s : Terms) (id : ℕ) (slot : Slot) : Terms :=
  { s with slots := s.slots.insert id slot }

def dropSlot (s : Terms) (id : ℕ) : Terms := { s with slots := s.slots.erase id }

/-- Send to the PTY of a slot, if it is attached. -/
def send (s : Terms) (slot : Slot) (msg : PtyIn) : Terms :=
  match slot.pty with
  | some p => s.note (.pty p msg)
  | none => s

/-- A command that does not need the connection. -/
def doLocal (s : Terms) (cmd : TermCmd) : Terms :=
  let s := s.note (.handled cmd)
  match cmd with
  | .input id data =>
    match s.slot id with
    | some slot => s.send slot (.data data)
    | none => s
  | .resize id size =>
    match s.slot id with
    | some slot =>
      (s.setSlot id { slot with spec := { slot.spec with size := size } }).send slot (.resize size)
    | none => s
  | .close id =>
    match s.slot id with
    | some slot => (s.dropSlot id).send slot .close
    | none => s
  | .open spec reply => { s with pending := s.pending ++ [(spec, reply)] }
  | .retry => s
  | .stop => s

/-- Handle commands while an attempt is in flight; false if told to stop. -/
def busy (s : Terms) : List TermCmd → Terms × Bool
  | [] => (s, true)
  | .stop :: _ => (s.note (.handled .stop), false)
  | cmd :: cmds => busy (s.doLocal cmd) cmds

/-- Await the next attempt of the script; `none` if told to stop meanwhile. A
script that has run out stands for a command channel that closed. -/
def await (s : Terms) : Terms × Option (Except OpenError Unit) :=
  match s.script with
  | [] => (s, none)
  | a :: script =>
    match busy { s with script := script } a.cmds with
    | (s, false) => (s, none)
    | (s, true) => ({ s with now := s.now + a.elapsed }, a.outcome)

/-- The configured zellij, or the one the probe reported by now. -/
def zellijPath (s : Terms) : Option String := s.cfg.zellij.or (s.script.head?.bind (·.found))

/-- Attach `spec` over the current connection; `none` if told to stop meanwhile. -/
def attach (s : Terms) (id generation : ℕ) (spec : AttachSpec) :
    Terms × Option (Except OpenError ℕ) :=
  match s.link with
  | .up =>
    match ({ s with link := .busy }.note (.attach id spec s.zellijPath)).await with
    | (s, none) => (s, none)
    | (s, some (.error e)) => ({ s with link := .up }, some (.error e))
    | (s, some (.ok ())) =>
      let p := s.nextPty
      ({ s with link := .up, nextPty := p + 1 }.note (.created p id generation spec),
        some (.ok p))
  | _ => (s, some (.error (.retry "terminal connection is down")))

/-- Open the connection; `none` if told to stop meanwhile. -/
def connect (s : Terms) : Terms × Option (Except OpenError Unit) :=
  match (s.note .openTerminals).await with
  | (s, none) => (s, none)
  | (s, some (.error e)) => (s, some (.error e))
  | (s, some (.ok ())) =>
    ({ s with link := .up, upSince := some s.now }.emit (some .up), some (.ok ()))

/-- Drop the connection when the last terminal is gone. -/
def idleIfEmpty (s : Terms) : Terms :=
  if s.slots.isEmpty && s.link ≠ .idle && s.link ≠ .busy then
    { s with link := .idle, upSince := none, backoff := s.backoff.reset }.emit none
  else s

/-- Take the connection down and schedule a reconnect, or go idle without terminals. -/
def down (s : Terms) (reason : String) : Terms :=
  let (retryIn, backoff) := s.backoff.nextDelay
  let s := { s with backoff := backoff, link := .down (some (s.now + retryIn)) (.retry reason) }
  if s.slots.isEmpty then s.idleIfEmpty else s.emit (some (.retrying retryIn reason))

/-- The connection is gone: detach every terminal and schedule a reconnect. -/
def lost (s : Terms) (reason : String) : Terms :=
  let s := { s with
    slots := s.slots.map fun _ => Slot.detach
    log := s.log ++ s.slots.keys.map (TermEffect.owner · (.detached reason)) }
  let s := { s with
    backoff := if s.upSince.any (stableAfter ≤ s.now - ·) then s.backoff.reset else s.backoff
    upSince := none }
  s.down reason

/-- A terminal was attached again: fill its slot, or close the PTY if the
terminal was closed meanwhile. -/
def reattached (s : Terms) (id generation p : ℕ) : Terms :=
  match s.slot id with
  | some slot =>
    (s.setSlot id
      { slot with pty := some p, generation := generation, attachedAt := s.now }).note
        (.owner id .attached)
  | none => s.note (.pty p .close)

/-- Attach every terminal of a list again; false if told to stop. -/
def attachAll (s : Terms) : List ℕ → Terms × Bool
  | [] => (s.idleIfEmpty, true)
  | id :: ids =>
    match s.slot id with
    | none => attachAll s ids
    | some slot =>
      match s.attach id (slot.generation + 1) slot.spec with
      | (s, none) => (s, false)
      | (s, some (.ok p)) => attachAll (s.reattached id (slot.generation + 1) p) ids
      | (s, some (.error e)) => (s.lost (reasonOf e), true)

/-- Reconnect and attach every terminal again, in the order given by `order`;
false if told to stop. -/
def reconnect (s : Terms) (order : List ℕ → List ℕ) : Terms × Bool :=
  match s.connect with
  | (s, none) => (s, false)
  | (s, some (.ok ())) => s.attachAll (order s.slots.keys)
  | (s, some (.error (.retry reason))) => (s.down reason, true)
  | (s, some (.error (.needsUser p))) =>
    let s := { s with link := .down none (.needsUser p) }
    (if s.slots.isEmpty then s.idleIfEmpty else s.emit (some (.needsUser p)), true)

/-- Connect for the first terminal; on failure the task is idle again. -/
def connectIdle (s : Terms) : Terms × Option (Except TermError Unit) :=
  match s.connect with
  | (s, none) => (s, none)
  | (s, some (.ok ())) => (s, some (.ok ()))
  | (s, some (.error e)) => ({ s with link := .idle }.emit none, some (.error (.open e)))

/-- The connection a new terminal needs. -/
def openLink (s : Terms) (order : List ℕ → List ℕ) : Terms × Option (Except TermError Unit) :=
  match s.link with
  | .down .. =>
    -- Detached terminals exist: reconnect and reattach them all first.
    match s.reconnect order with
    | (s, false) => (s, none)
    | (s, true) =>
      match s.link with
      | .down _ error => (s, some (.error (.open error)))
      | .idle => s.connectIdle
      | _ => (s, some (.ok ()))
  | .idle => s.connectIdle
  | _ => (s, some (.ok ()))

/-- Open a terminal; `none` if told to stop meanwhile. -/
def openTerminal (s : Terms) (spec : AttachSpec) (order : List ℕ → List ℕ) :
    Terms × Option (Except TermError ℕ) :=
  match s.openLink order with
  | (s, none) => (s, none)
  | (s, some (.error e)) => (s, some (.error e))
  | (s, some (.ok ())) =>
    let id := s.nextId
    match ({ s with nextId := id + 1 }.note (.opening id spec)).attach id 0 spec with
    | (s, none) => (s, none)
    | (s, some (.ok p)) =>
      ((s.note (.owner id .attached)).setSlot id ⟨spec, some p, 0, s.now, 0⟩, some (.ok id))
    | (s, some (.error e)) => (s.idleIfEmpty, some (.error (.open e)))

/-- Open a terminal and answer its caller; false if told to stop. -/
def serveOpen (s : Terms) (spec : AttachSpec) (reply : ℕ) (order : List ℕ → List ℕ) :
    Terms × Bool :=
  match s.openTerminal spec order with
  | (s, none) => (s, false)
  | (s, some r) => (s.note (.reply reply r), true)

/-- One terminal's channel closed without an exit status while the connection is
up: attach that terminal again, unless it keeps closing. False if told to stop. -/
def channelEnded (s : Terms) (id : ℕ) : Terms × Bool :=
  match s.slot id with
  | none => (s, true)
  | some slot =>
    let slot := { slot with
      pty := none
      quickEnds := if s.now - slot.attachedAt < stableAfter then slot.quickEnds + 1 else 0 }
    let s := s.setSlot id slot
    if maxQuickEnds ≤ slot.quickEnds then
      (((s.note (.owner id (.exited none))).dropSlot id).idleIfEmpty, true)
    else
      let s := s.note (.owner id (.detached "terminal channel closed"))
      match s.attach id (slot.generation + 1) slot.spec with
      | (s, none) => (s, false)
      | (s, some (.ok p)) => ((s.reattached id (slot.generation + 1) p).idleIfEmpty, true)
      | (s, some (.error e)) => (s.lost (reasonOf e), true)

/-- Output of one PTY, tagged with its terminal and attach generation (`none`: it
ended). False if told to stop. -/
def output (s : Terms) (id generation : ℕ) (out : Option PtyOut) (alive : Bool) :
    Terms × Bool :=
  match s.slot id with
  | none => (s, true)
  | some slot =>
    if slot.generation ≠ generation || slot.pty.isNone then (s, true)
    else match out with
      | some (.data d) => (s.note (.owner id (.output d)), true)
      | some (.exit status) =>
        (((s.note (.owner id (.exited status))).dropSlot id).idleIfEmpty, true)
      | none =>
        if s.link = .up && alive then s.channelEnded id
        else (s.lost "connection lost", true)

/-- Handle one command (`none`: the channel closed); false when the task should end. -/
def command (s : Terms) (cmd : Option TermCmd) (order : List ℕ → List ℕ) : Terms × Bool :=
  match cmd with
  | none => (s, false)
  | some .stop => (s.note (.handled .stop), false)
  | some (.open spec reply) => (s.note (.handled (.open spec reply))).serveOpen spec reply order
  | some .retry =>
    let s := s.note (.handled .retry)
    match s.link with
    | .down .. => s.reconnect order
    | _ => (s, true)
  | some cmd => ((s.doLocal cmd).idleIfEmpty, true)

/-- Close every PTY (the task is ending). -/
def closeAll (s : Terms) : Terms :=
  { s with
    log := s.log ++ s.slots.toList.filterMap fun (_, slot) => slot.pty.map (.pty · .close)
    ended := true }

/-- What wakes the task at the top of its loop. -/
inductive Wake where
  | command (cmd : Option TermCmd)
  | output (id generation : ℕ) (out : Option PtyOut) (alive : Bool)
  | timer

/-- One turn of the loop: the time that passes first, what wakes the task, the
awaits of the turn, and the order in which a reconnect visits the terminals (the
source iterates a hash map). -/
structure Turn where
  elapsed : ℕ
  wake : Wake
  script : List Attempt
  order : List ℕ → List ℕ
  order_perm : ∀ ids, (order ids).Perm ids

/-- When the task reconnects on its own. -/
def retryAt (s : Terms) : Option ℕ :=
  match s.link with
  | .down (some t) _ => if s.slots.isEmpty then none else some t
  | _ => none

/-- The body of the loop, before its result is looked at. -/
def body (s : Terms) (turn : Turn) : Terms × Bool :=
  match s.pending with
  | (spec, reply) :: pending => { s with pending := pending }.serveOpen spec reply turn.order
  | [] =>
    match turn.wake with
    | .command cmd => s.command cmd turn.order
    | .output id generation out alive => s.output id generation out alive
    | .timer => if s.retryAt.any (· ≤ s.now) then s.reconnect turn.order else (s, true)

def step (s : Terms) (turn : Turn) : Terms :=
  if s.ended then s
  else match { s with now := s.now + turn.elapsed, script := turn.script }.body turn with
    | (s, true) => s
    | (s, false) => s.closeAll

/-- The task after a number of turns. -/
def run (cfg : HostConfig) (turns : List Turn) : Terms := turns.foldl step (init cfg)

section Fields

variable (s : Terms) (e : TermEffect) (id id' : ℕ) (t : Slot) (msg : PtyIn)

@[simp] theorem slot_note : (s.note e).slot id = s.slot id := rfl

@[simp] theorem link_note : (s.note e).link = s.link := rfl

@[simp] theorem slots_note : (s.note e).slots = s.slots := rfl

theorem slot_init (cfg : HostConfig) : (init cfg).slot id = none := ExtTreeMap.getElem?_empty

theorem slot_setSlot : (s.setSlot id t).slot id' = if id = id' then some t else s.slot id' := by
  simp only [slot, setSlot, ExtTreeMap.getElem?_insert, LawfulEqCmp.compare_eq_iff_eq]

theorem slot_dropSlot : (s.dropSlot id).slot id' = if id = id' then none else s.slot id' := by
  simp only [slot, dropSlot, ExtTreeMap.getElem?_erase, LawfulEqCmp.compare_eq_iff_eq]

@[simp] theorem slot_send : (s.send t msg).slot id = s.slot id := by
  unfold send
  cases t.pty <;> rfl

theorem slots_eq_empty_iff : s.slots = ∅ ↔ ∀ id, s.slot id = none := by
  constructor
  · intro h id
    simp only [slot, h, ExtTreeMap.getElem?_empty]
  · intro h
    exact ExtTreeMap.ext_getElem? fun id => (h id).trans ExtTreeMap.getElem?_empty.symm

/-- The terminals that are left when all are detached. -/
theorem slot_map_detach {s s' : Terms} {id : ℕ} {slot' : Slot}
    (hd : s'.slots = s.slots.map fun _ => Slot.detach) (hs : s'.slot id = some slot') :
    ∃ slot, s.slot id = some slot ∧ slot' = slot.detach := by
  rw [slot, hd, ExtTreeMap.getElem?_map] at hs
  obtain ⟨slot, hslot, rfl⟩ := Option.map_eq_some_iff.mp hs
  exact ⟨slot, hslot, rfl⟩

/-- A terminal that is there after one that was there changed. -/
theorem found_of_setSlot {s : Terms} {id id' : ℕ} {slot t slot' : Slot}
    (hs : s.slot id = some slot) (hs' : (s.setSlot id t).slot id' = some slot') :
    ∃ slot, s.slot id' = some slot := by
  rw [slot_setSlot] at hs'
  split_ifs at hs' with he
  · exact ⟨slot, he ▸ hs⟩
  · exact ⟨slot', hs'⟩

theorem mem_keys : id ∈ s.slots.keys ↔ (s.slot id).isSome := by
  rw [ExtTreeMap.mem_keys, slot, ExtTreeMap.mem_iff_isSome_getElem?]

end Fields

/-- What the commands of an attempt preserve, and the clock and the script do not
matter to, holds after the attempt. -/
theorem await_induct {P : Terms → Prop} (hcmd : ∀ s cmd, P s → P (s.doLocal cmd))
    (henv : ∀ s script now, P s → P { s with script := script, now := now }) {s : Terms}
    (h : P s) : P s.await.1 := by
  have hbusy : ∀ cmds (s : Terms), P s → P (s.busy cmds).1 := by
    intro cmds
    induction cmds with
    | nil => exact fun s hs => hs
    | cons cmd cmds ih =>
      intro s hs
      cases cmd with
      | stop => exact hcmd s .stop hs
      | _ => exact ih _ (hcmd s _ hs)
  unfold await
  cases s.script with
  | nil => exact h
  | cons a script =>
    have hb := hbusy a.cmds _ (henv s script s.now h)
    rcases he : busy { s with script := script } a.cmds with ⟨t, b⟩
    rw [he] at hb
    simp only [he]
    cases b with
    | false => exact hb
    | true => exact henv t t.script _ hb

/-- What an attach over a connection that is up comes to, unless told to stop. -/
theorem attach_cases {s s' : Terms} {id generation : ℕ} {spec : AttachSpec}
    {r : Except OpenError ℕ} (hup : s.link = .up)
    (h : s.attach id generation spec = (s', some r)) :
    ∃ t, t = ({ s with link := .busy }.note (.attach id spec s.zellijPath)).await.1 ∧
      ((∃ e, r = .error e ∧ s' = { t with link := .up }) ∨
        r = .ok t.nextPty ∧ s' = { t with link := .up, nextPty := t.nextPty + 1 }.note
          (.created t.nextPty id generation spec)) := by
  rw [attach, hup] at h
  simp only at h
  rcases ha : ({ s with link := .busy }.note (.attach id spec s.zellijPath)).await with
    ⟨t, _ | e | _⟩ <;> rw [ha] at h <;> cases h
  · exact ⟨t, by rw [ha], .inl ⟨e, rfl, rfl⟩⟩
  · exact ⟨t, by rw [ha], .inr ⟨rfl, rfl⟩⟩

end Terms

end MultiAi
