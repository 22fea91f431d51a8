import MultiAi.Host.State
import MultiAi.Library.Machine

/-! # The probe task of a host

Keeps the probe connection of a host alive: connects, relays messages, and reconnects with
backoff. Wherever the task waits, the next thing that happens is an input: a command is
taken, or what it waits for is there.
-/

namespace MultiAi

inductive LinkError where
  /-- Reading or writing the stream failed. -/
  | io (e : String)
  | closed
  /-- No hello in time, or nothing at all for too long. -/
  | silent
  | noHello (m : String)
  /-- The probe speaks another protocol version. -/
  | protocol (probe app : ℕ)
  deriving DecidableEq, Repr

def LinkError.text : LinkError → String
  | .io e => s!"probe stream: {e}"
  | .closed => "probe stream closed"
  | .silent => "probe stopped responding"
  | .noHello m => s!"probe did not start: {m}"
  | .protocol probe app => s!"probe protocol {probe}, app protocol {app}"

/-- `reason`, followed by the end of the probe's stderr if it wrote any. -/
def withStderr (reason : String) : Option String → String
  | some tail => s!"{reason} (probe stderr: {tail})"
  | none => reason

/-- A started probe: the result of installing its hooks, and what the user should know. -/
structure Opened where
  hooks : Except String (List HookResult)
  notes : List String

inductive HostCommand where
  /-- Connect now: skips a backoff wait or leaves a problem that needs the user. -/
  | retry
  | send (m : AppMsg)
  | stop

/-- What the task does, as seen from outside. -/
inductive HostEffect where
  | emit (id : String) (ev : HostEvent)
  /-- A command is taken from its channel; `none` if the channel is closed. -/
  | took (c : Option HostCommand)
  | opens (cfg : HostConfig)
  /-- The attempt is over, or it is given up. -/
  | openEnds
  | linked
  | unlinked
  /-- A message is written to the link and flushed. -/
  | wrote (m : AppMsg)
  /-- So is the task's own acknowledgement of a hook event. -/
  | acked (offset : ℕ)
  | ends

/-- Why the task waits between two attempts. -/
inductive Pause where
  /-- The attempt needs the user. -/
  | denied
  /-- The probe speaks another protocol version; its link is still held. -/
  | mismatch
  | backoff (deadline : ℕ)

/-- Where the task waits. -/
inductive Phase where
  | connecting
  | greeting (o : Opened)
  | serving (upSince : ℕ)
  | acking (upSince offset : ℕ)
  | sending (upSince : ℕ) (m : AppMsg)
  /-- The link failed; the stderr of the probe is still read. -/
  | explaining (reason : String)
  | waiting (pause : Pause)
  | ended

structure Host where
  cfg : HostConfig
  /-- The commands in the channel. -/
  cmds : List HostCommand
  /-- Nobody can send a command any more. -/
  closed : Bool
  phase : Phase
  backoff : Backoff
  now : ℕ

namespace Host

/-- What a command received while waiting means for the wait. -/
inductive Wake where
  | retry
  | stop
  deriving DecidableEq, Repr

def emit (s : Host) (ev : HostEvent) : HostEffect := .emit s.cfg.id ev

/-- Handle a command that arrived while no probe is running. -/
def idleCommand (s : Host) : Option HostCommand → Option Wake × List HostEffect
  | none | some .stop => (some .stop, [])
  | some .retry => (some .retry, [])
  | some (.send m) => (none, [s.emit (.dropped m)])

/-- What is given up when the task leaves a phase for good. -/
def release : Phase → List HostEffect
  | .connecting => [.openEnds]
  | .waiting .denied | .waiting (.backoff _) | .ended => []
  | .greeting _ | .serving _ | .acking .. | .sending .. | .explaining _ | .waiting .mismatch =>
    [.unlinked]

def finish (s : Host) : Host × List HostEffect :=
  ({ s with phase := .ended }, release s.phase ++ [.ends])

/-- The top of the loop: a new attempt. -/
def attempt (s : Host) : Host × List HostEffect :=
  ({ s with phase := .connecting }, [s.emit (.probe .connecting), .opens s.cfg])

/-- A command while the attempt or the hello is under way: a retry is ignored. -/
def busy (s : Host) (c : Option HostCommand) : Host × List HostEffect :=
  match s.idleCommand c with
  | (some .stop, out) => (s.finish.1, out ++ s.finish.2)
  | (_, out) => (s, out)

/-- The wait is over. -/
def afterWait (s : Host) (pause : Pause) : Host × List HostEffect :=
  let backoff := match pause with
    | .denied => s.backoff.reset
    | _ => s.backoff
  let s' := { s with backoff := backoff }
  (s'.attempt.1, release s.phase ++ s'.attempt.2)

def wait (s : Host) (pause : Pause) (c : Option HostCommand) : Host × List HostEffect :=
  match s.idleCommand c with
  | (some .retry, out) => ((s.afterWait pause).1, out ++ (s.afterWait pause).2)
  | (some .stop, out) => (s.finish.1, out ++ s.finish.2)
  | (none, out) => (s, out)

/-- A command while the probe is served. -/
def serveCommand (s : Host) (upSince : ℕ) : Option HostCommand → Host × List HostEffect
  | none | some .stop => s.finish
  | some .retry => (s, [])
  | some (.send m) => ({ s with phase := .sending upSince m }, [])

def takeCommand (s : Host) (c : Option HostCommand) : Host × List HostEffect :=
  match s.phase with
  | .connecting | .greeting _ => s.busy c
  | .waiting pause => s.wait pause c
  | .serving upSince => s.serveCommand upSince c
  | .acking .. | .sending .. | .explaining _ | .ended => (s, [])

def takesCommands : Phase → Bool
  | .connecting | .greeting _ | .waiting _ | .serving _ => true
  | .acking .. | .sending .. | .explaining _ | .ended => false

/-- Take the next command, if the task waits for one and the channel has something. -/
def recv (s : Host) : Host × List HostEffect :=
  if takesCommands s.phase then
    match s.cmds with
    | c :: cmds =>
      let (s, out) := { s with cmds := cmds }.takeCommand (some c)
      (s, .took (some c) :: out)
    | [] =>
      if s.closed then
        let (s, out) := s.takeCommand none
        (s, .took none :: out)
      else (s, [])
  else (s, [])

/-- The next attempt starts after a delay. -/
def backOff (s : Host) (reason : String) : Host × List HostEffect :=
  let (retryIn, backoff) := s.backoff.nextDelay
  ({ s with backoff := backoff, phase := .waiting (.backoff (s.now + retryIn)) },
    [s.emit (.probe (.retrying retryIn reason))])

def afterOpen (s : Host) : Except OpenError Opened → Host × List HostEffect
  | .error (.needsUser p) =>
    ({ s with phase := .waiting .denied }, [.openEnds, s.emit (.probe (.needsUser p))])
  | .error (.retry reason) => ((s.backOff reason).1, .openEnds :: (s.backOff reason).2)
  | .ok o => ({ s with phase := .greeting o }, [.openEnds, .linked])

def afterHello (s : Host) (o : Opened) : Except LinkError HelloInfo → Host × List HostEffect
  | .error (.protocol probe app) =>
    ({ s with phase := .waiting .mismatch }, [s.emit (.probe (.needsUser (.protocol probe app)))])
  | .error e => ({ s with phase := .explaining e.text }, [])
  | .ok hello =>
    ({ s with phase := .serving s.now },
      [s.emit (.hello hello), s.emit (.hooks o.hooks)] ++
        (if o.notes = [] then [] else [s.emit (.notes o.notes)]) ++ [s.emit (.probe .up)])

/-- A probe that stayed up long enough resets the backoff. -/
def linkFailed (s : Host) (upSince : ℕ) (e : LinkError) : Host :=
  { s with
    backoff := if stableAfter ≤ s.now - upSince then s.backoff.reset else s.backoff
    phase := .explaining e.text }

/-- Hook events are acknowledged once they have been handed to the monitor. -/
def serve (s : Host) (upSince : ℕ) : Except LinkError ProbeMsg → Host × List HostEffect
  | .error e => (s.linkFailed upSince e, [])
  | .ok msg =>
    let phase := match msg with
      | .agentEvent ev => match ev.spoolOffset with
        | some offset => Phase.acking upSince offset
        | none => .serving upSince
      | _ => .serving upSince
    ({ s with phase := phase }, [s.emit (.msg msg)])

/-- A write to the link and its flush are over. -/
def afterSend (s : Host) (r : Except LinkError Unit) : Host × List HostEffect :=
  match s.phase, r with
  | .acking upSince offset, .ok () => ({ s with phase := .serving upSince }, [.acked offset])
  | .acking upSince _, .error e => (s.linkFailed upSince e, [])
  | .sending upSince m, .ok () => ({ s with phase := .serving upSince }, [.wrote m])
  | .sending upSince m, .error e => (s.linkFailed upSince e, [s.emit (.dropped m)])
  | _, _ => (s, [])

inductive Input where
  /-- Somebody sends a command. -/
  | queue (c : HostCommand)
  | close
  | passes (ms : ℕ)
  | command
  | opened (r : Except OpenError Opened)
  | greeted (r : Except LinkError HelloInfo)
  | received (r : Except LinkError ProbeMsg)
  | sent (r : Except LinkError Unit)
  | explained (tail : Option String)
  | elapsed

/-- An input that nothing waits for changes nothing. -/
def step (s : Host) : Input → Host × List HostEffect
  | .queue c => (if s.closed then s else { s with cmds := s.cmds ++ [c] }, [])
  | .close => ({ s with closed := true }, [])
  | .passes ms => ({ s with now := s.now + ms }, [])
  | .command => s.recv
  | .opened r =>
    match s.phase with
    | .connecting => s.afterOpen r
    | _ => (s, [])
  | .greeted r =>
    match s.phase with
    | .greeting o => s.afterHello o r
    | _ => (s, [])
  | .received r =>
    match s.phase with
    | .serving upSince => s.serve upSince r
    | _ => (s, [])
  | .sent r => s.afterSend r
  | .explained tail =>
    match s.phase with
    | .explaining reason =>
      ((s.backOff (withStderr reason tail)).1, .unlinked :: (s.backOff (withStderr reason tail)).2)
    | _ => (s, [])
  | .elapsed =>
    match s.phase with
    | .waiting (.backoff deadline) =>
      if deadline ≤ s.now then s.afterWait (.backoff deadline) else (s, [])
    | _ => (s, [])

def new (cfg : HostConfig) : Host × List HostEffect :=
  attempt ⟨cfg, [], false, .connecting, .default, 0⟩

/-- The task after some inputs. -/
def run (cfg : HostConfig) (inputs : List Input) : Host := Machine.run step (new cfg).1 inputs

/-- Everything the task does from its start. -/
def history (cfg : HostConfig) (inputs : List Input) : List HostEffect :=
  (new cfg).2 ++ Machine.outputs step (new cfg).1 inputs

/-- What a step can do: the phase it leaves, the phase it reaches, and its effects. -/
inductive Moves (cfg : HostConfig) : Phase → Phase → List HostEffect → Prop
  | rests {p : Phase} : Moves cfg p p []
  | ignores {p : Phase} : takesCommands p → (∀ pause, p ≠ .waiting pause) →
      Moves cfg p p [.took (some .retry)]
  | drops {p : Phase} {m : AppMsg} : takesCommands p → (∀ upSince, p ≠ .serving upSince) →
      Moves cfg p p [.took (some (.send m)), .emit cfg.id (.dropped m)]
  | ends {p : Phase} {c : Option HostCommand} : c = none ∨ c = some .stop → takesCommands p →
      Moves cfg p .ended (.took c :: (release p ++ [.ends]))
  | retries {pause : Pause} : Moves cfg (.waiting pause) .connecting
      (.took (some .retry) :: (release (.waiting pause) ++
        [.emit cfg.id (.probe .connecting), .opens cfg]))
  | elapses {deadline : ℕ} : Moves cfg (.waiting (.backoff deadline)) .connecting
      [.emit cfg.id (.probe .connecting), .opens cfg]
  | denied {p : Problem} : Moves cfg .connecting (.waiting .denied)
      [.openEnds, .emit cfg.id (.probe (.needsUser p))]
  | refused {deadline retryIn : ℕ} {reason : String} :
      Moves cfg .connecting (.waiting (.backoff deadline))
        [.openEnds, .emit cfg.id (.probe (.retrying retryIn reason))]
  | links {o : Opened} : Moves cfg .connecting (.greeting o) [.openEnds, .linked]
  | mismatches {o : Opened} {p : Problem} : Moves cfg (.greeting o) (.waiting .mismatch)
      [.emit cfg.id (.probe (.needsUser p))]
  | failsHello {o : Opened} {reason : String} : Moves cfg (.greeting o) (.explaining reason) []
  | greets {o : Opened} {hello : HelloInfo} {upSince : ℕ} : Moves cfg (.greeting o)
      (.serving upSince) ([.emit cfg.id (.hello hello), .emit cfg.id (.hooks o.hooks)] ++
        (if o.notes = [] then [] else [.emit cfg.id (.notes o.notes)]) ++
        [.emit cfg.id (.probe .up)])
  | relays {upSince : ℕ} {p : Phase} {msg : ProbeMsg} :
      p = .serving upSince ∨ (∃ offset, p = .acking upSince offset) →
      Moves cfg (.serving upSince) p [.emit cfg.id (.msg msg)]
  | takes {upSince : ℕ} {m : AppMsg} :
      Moves cfg (.serving upSince) (.sending upSince m) [.took (some (.send m))]
  | fails {upSince : ℕ} {p : Phase} {reason : String} :
      p = .serving upSince ∨ (∃ offset, p = .acking upSince offset) →
      Moves cfg p (.explaining reason) []
  | acks {upSince offset : ℕ} : Moves cfg (.acking upSince offset) (.serving upSince)
      [.acked offset]
  | writes {upSince : ℕ} {m : AppMsg} : Moves cfg (.sending upSince m) (.serving upSince)
      [.wrote m]
  | loses {upSince : ℕ} {m : AppMsg} {reason : String} :
      Moves cfg (.sending upSince m) (.explaining reason) [.emit cfg.id (.dropped m)]
  | explains {reason : String} {deadline retryIn : ℕ} {reason' : String} :
      Moves cfg (.explaining reason) (.waiting (.backoff deadline))
        [.unlinked, .emit cfg.id (.probe (.retrying retryIn reason'))]

variable (s : Host)

theorem mem_release {p : Phase} {x : HostEffect} (h : x ∈ release p) :
    x = .openEnds ∨ x = .unlinked := by
  cases p with
  | waiting pause =>
    cases pause with
    | mismatch => exact .inr (List.mem_singleton.mp h)
    | _ => cases h
  | connecting => exact .inl (List.mem_singleton.mp h)
  | ended => cases h
  | _ => exact .inr (List.mem_singleton.mp h)

/-- What a new connection tells. -/
theorem mem_greeting {cfg : HostConfig} {o : Opened} {hello : HelloInfo} {x : HostEffect}
    (h : x ∈ [.emit cfg.id (.hello hello), .emit cfg.id (.hooks o.hooks)] ++
      (if o.notes = [] then [] else [.emit cfg.id (.notes o.notes)]) ++
      [.emit cfg.id (.probe .up)]) :
    x = .emit cfg.id (.hello hello) ∨ x = .emit cfg.id (.hooks o.hooks) ∨
      x = .emit cfg.id (.notes o.notes) ∨ x = .emit cfg.id (.probe .up) := by
  split at h
  · simp only [List.append_nil, List.mem_append, List.mem_cons, List.not_mem_nil, or_false] at h
    tauto
  · simp only [List.mem_append, List.mem_cons, List.not_mem_nil, or_false] at h
    tauto

theorem moves_busy (c : Option HostCommand) (ht : takesCommands s.phase)
    (hw : ∀ pause, s.phase ≠ .waiting pause) (hs : ∀ upSince, s.phase ≠ .serving upSince) :
    Moves s.cfg s.phase (s.busy c).1.phase (.took c :: (s.busy c).2) := by
  cases c with
  | none => exact .ends (Or.inl rfl) ht
  | some c =>
    cases c with
    | retry => exact .ignores ht hw
    | send m => exact .drops ht hs
    | stop => exact .ends (Or.inr rfl) ht

theorem moves_takeCommand (c : Option HostCommand) (ht : takesCommands s.phase) :
    Moves s.cfg s.phase (s.takeCommand c).1.phase (.took c :: (s.takeCommand c).2) := by
  unfold takeCommand
  split
  · rename_i hp
    exact moves_busy s c ht (by simp [hp]) (by simp [hp])
  · rename_i hp
    exact moves_busy s c ht (by simp [hp]) (by simp [hp])
  · rename_i pause hp
    have hserving : ∀ upSince, s.phase ≠ .serving upSince := by simp [hp]
    cases c with
    | none => exact .ends (Or.inl rfl) ht
    | some c =>
      cases c with
      | retry =>
        simp only [wait, idleCommand, afterWait, attempt, hp]
        exact .retries
      | send m => exact .drops ht hserving
      | stop => exact .ends (Or.inr rfl) ht
  · rename_i upSince hp
    cases c with
    | none => exact .ends (Or.inl rfl) ht
    | some c =>
      cases c with
      | retry => exact .ignores ht (by simp [hp])
      | send m =>
        rw [hp]
        exact .takes
      | stop => exact .ends (Or.inr rfl) ht
  all_goals
    rename_i hp
    rw [hp] at ht
    cases ht

/-- What a receive can find. -/
theorem recv_cases : s.recv = (s, []) ∨
    takesCommands s.phase ∧ ((∃ c cmds, s.cmds = c :: cmds ∧
      s.recv = (({ s with cmds := cmds }.takeCommand (some c)).1,
        .took (some c) :: ({ s with cmds := cmds }.takeCommand (some c)).2)) ∨
      s.cmds = [] ∧ s.closed ∧
        s.recv = ((s.takeCommand none).1, .took none :: (s.takeCommand none).2)) := by
  by_cases ht : takesCommands s.phase
  · cases hc : s.cmds with
    | cons c cmds => exact Or.inr ⟨ht, Or.inl ⟨c, cmds, rfl, by simp [recv, ht, hc]⟩⟩
    | nil =>
      by_cases hclosed : s.closed
      · exact Or.inr ⟨ht, Or.inr ⟨rfl, hclosed, by simp [recv, ht, hc, hclosed]⟩⟩
      · exact Or.inl (by simp [recv, ht, hc, hclosed])
  · exact Or.inl (by simp [recv, ht])

theorem moves_recv : Moves s.cfg s.phase s.recv.1.phase s.recv.2 := by
  rcases recv_cases s with h | ⟨ht, ⟨c, cmds, -, h⟩ | ⟨-, -, h⟩⟩
  · rw [h]
    exact .rests
  · rw [h]
    exact moves_takeCommand { s with cmds := cmds } (some c) ht
  · rw [h]
    exact moves_takeCommand s none ht

theorem moves_afterSend (r : Except LinkError Unit) :
    Moves s.cfg s.phase (s.afterSend r).1.phase (s.afterSend r).2 := by
  unfold afterSend
  split
  · rename_i hp
    rw [hp]
    exact .acks
  · rename_i hp
    rw [hp]
    exact .fails (Or.inr ⟨_, rfl⟩)
  · rename_i hp
    rw [hp]
    exact .writes
  · rename_i hp
    rw [hp]
    exact .loses
  · exact .rests

/-- Every step is one of the moves. -/
theorem step_moves (i : Input) : Moves s.cfg s.phase (s.step i).1.phase (s.step i).2 := by
  cases i with
  | queue c =>
    simp only [step]
    split_ifs <;> exact .rests
  | close => exact .rests
  | passes ms => exact .rests
  | command => exact moves_recv s
  | opened r =>
    simp only [step]
    split
    · rename_i hp
      rw [hp]
      cases r with
      | error e =>
        cases e with
        | retry reason => exact .refused
        | needsUser p => exact .denied
      | ok o => exact .links
    · exact .rests
  | greeted r =>
    simp only [step]
    split
    · rename_i o hp
      rw [hp]
      cases r with
      | error e =>
        cases e with
        | protocol probe app => exact .mismatches
        | _ => exact .failsHello
      | ok hello => exact .greets
    · exact .rests
  | received r =>
    simp only [step]
    split
    · rename_i upSince hp
      rw [hp]
      cases r with
      | error e => exact .fails (Or.inl rfl)
      | ok msg =>
        refine .relays ?_
        simp only [serve]
        split
        · split
          · exact Or.inr ⟨_, rfl⟩
          · exact Or.inl rfl
        · exact Or.inl rfl
    · exact .rests
  | sent r => exact moves_afterSend s r
  | explained tail =>
    simp only [step]
    split
    · rename_i reason hp
      rw [hp]
      exact .explains
    · exact .rests
  | elapsed =>
    simp only [step]
    split
    · rename_i deadline hp
      split_ifs
      · simp only [afterWait, hp]
        exact .elapses
      · rw [hp]
        exact .rests
    · exact .rests

section Channel

/-- The host and its channel of commands. -/
def channel (s : Host) : HostConfig × List HostCommand × Bool := (s.cfg, s.cmds, s.closed)

theorem channel_takeCommand (c : Option HostCommand) :
    (s.takeCommand c).1.channel = s.channel := by
  unfold takeCommand
  split <;> rcases c with _ | (_ | _ | _) <;> rfl

/-- What a step does to the channel. -/
theorem channel_step (i : Input) : (s.step i).1.channel =
    match i with
    | .queue c => (s.cfg, if s.closed then s.cmds else s.cmds ++ [c], s.closed)
    | .close => (s.cfg, s.cmds, true)
    | .command => (s.cfg, if takesCommands s.phase then s.cmds.tail else s.cmds, s.closed)
    | _ => s.channel := by
  cases i with
  | queue c =>
    simp only [step]
    split_ifs <;> rfl
  | close => rfl
  | passes ms => rfl
  | command =>
    by_cases ht : takesCommands s.phase
    · cases hc : s.cmds with
      | cons c cmds =>
        simp only [step, recv, ht, hc, if_true]
        exact channel_takeCommand { s with cmds := cmds } (some c)
      | nil =>
        by_cases hclosed : s.closed
        · simp only [step, recv, ht, hc, hclosed, if_true]
          exact (channel_takeCommand s none).trans (by simp [channel, hc, hclosed])
        · simp [step, recv, ht, hc, hclosed, channel]
    · simp [step, recv, ht, channel]
  | opened r =>
    simp only [step]
    split
    · rcases r with (_ | _) | _ <;> rfl
    · rfl
  | greeted r =>
    simp only [step]
    split
    · rcases r with (_ | _ | _ | _ | _) | _ <;> rfl
    · rfl
  | received r =>
    simp only [step]
    split
    · cases r <;> rfl
    · rfl
  | sent r =>
    simp only [step, afterSend]
    split <;> rfl
  | explained tail =>
    simp only [step]
    split <;> rfl
  | elapsed =>
    simp only [step]
    split
    · split_ifs <;> rfl
    · rfl

theorem step_cfg (i : Input) : (s.step i).1.cfg = s.cfg := by
  have h := congrArg Prod.fst (channel_step s i)
  cases i <;> exact h

end Channel

end Host

end MultiAi
