import MultiAi.Library.Machine
import MultiAi.Terms.Basic

/-! # A terminal on a channel

A channel is asked for a PTY, for some variables and for a command, one after another, and then
its bytes are moved both ways. What the server sends at any time is one sequence: answers, output
and the end of the program and of the channel. Errors are given by their texts.
-/

namespace MultiAi.SshPty

/-- How long to wait for the server to answer a request of a channel. -/
def replyTimeout : ℕ := 10000

inductive ChannelMsg where
  | success
  | failure
  | data (d : List UInt8)
  | extendedData (d : List UInt8)
  | exitStatus (status : ℕ)
  | exitSignal
  | close
  | other
  deriving DecidableEq, Repr

inductive Request where
  | pty (term : String) (size : TermSize)
  | env (key value : String)
  | exec (command : String)
  deriving DecidableEq, Repr

/-- What the channel brings and when; `none` where the connection is gone. -/
abbrev Incoming := List (ℕ × Option ChannelMsg)

/-- The channel while it is set up, and the output so far. -/
structure Wire where
  now : ℕ
  incoming : Incoming
  early : List UInt8
  sent : List Request

def unanswered (what : String) : String := "no answer to the " ++ what ++ " request within 10s"

/-- The loop of `reply`: output that arrives first is kept. -/
def hear (deadline : ℕ) (what : String) (sent : List Request) :
    ℕ → List UInt8 → Incoming → Except String Bool × Wire
  | _, early, [] => (.error (unanswered what), ⟨deadline, [], early, sent⟩)
  | now, early, (t, m) :: rest =>
    if deadline < t then (.error (unanswered what), ⟨deadline, (t, m) :: rest, early, sent⟩)
    else match m with
      | some .success => (.ok true, ⟨max now t, rest, early, sent⟩)
      | some .failure => (.ok false, ⟨max now t, rest, early, sent⟩)
      | some (.data d) | some (.extendedData d) =>
        hear deadline what sent (max now t) (early ++ d) rest
      | some .close | none => (.error "channel closed", ⟨max now t, rest, early, sent⟩)
      | some (.exitStatus _) | some .exitSignal | some .other =>
        hear deadline what sent (max now t) early rest

/-- The server's answer to the last request. -/
def reply (what : String) (w : Wire) : Except String Bool × Wire :=
  hear (w.now + replyTimeout) what w.sent w.now w.early w.incoming

section Setup

variable (write : Request → Except String Unit)

/-- Write a request and wait for its answer; `write` says what becomes of a write. -/
def ask (r : Request) (what : String) (w : Wire) : Except String Bool × Wire :=
  match write r with
  | .error e => (.error e, w)
  | .ok () => reply what { w with sent := w.sent ++ [r] }

/-- Whether the server accepted every variable. -/
def setEnvs : List (String × String) → Bool → Wire → Except String Bool × Wire
  | [], accepted, w => (.ok accepted, w)
  | (key, value) :: env, accepted, w =>
    match ask write (.env key value) "env" w with
    | (.error e, w) => (.error e, w)
    | (.ok answer, w) => setEnvs env (accepted && answer) w

/-- The end of `setup`: the output seen before the command was accepted is returned. -/
def execute (command : String) (w : Wire) : Except String (List UInt8) × Wire :=
  match ask write (.exec command) "exec" w with
  | (.error e, w) => (.error e, w)
  | (.ok false, w) => (.error "server refused the command", w)
  | (.ok true, w) => (.ok w.early, w)

/-- Request the PTY, the variables and the command. -/
def setup (size : TermSize) (env : List (String × String)) (command : Bool → String) (w : Wire) :
    Except String (List UInt8) × Wire :=
  match ask write (.pty "xterm-256color" size) "pty" w with
  | (.error e, w) => (.error e, w)
  | (.ok false, w) => (.error "server refused the pty request", w)
  | (.ok true, w) =>
    match setEnvs write env true w with
    | (.error e, w) => (.error e, w)
    | (.ok accepted, w) => execute write (command accepted) w

/-- A channel after it was set up: the output that the app has, and whether the channel was
closed. -/
structure Started where
  result : Except String (List PtyOut)
  wire : Wire
  closed : Bool

def start (size : TermSize) (env : List (String × String)) (command : Bool → String) (now : ℕ)
    (incoming : Incoming) : Started :=
  match setup write size env command ⟨now, incoming, [], []⟩ with
  | (.error e, w) => ⟨.error e, w, true⟩
  | (.ok early, w) => ⟨.ok (if early = [] then [] else [.data early]), w, false⟩

end Setup

/-- The task that moves the bytes. -/
structure Pump where
  status : Option ℕ
  exited : Bool
  inputOpen : Bool
  ended : Bool

inductive PumpEffect where
  | output (o : PtyOut)
  | data (d : List UInt8)
  | windowChange (size : TermSize)
  | eof
  | close
  deriving DecidableEq, Repr

/-- What the task sees next. -/
inductive Turn where
  /-- A message; `kept` says whether the app still has its receiver. -/
  | msg (m : Option ChannelMsg) (kept : Bool)
  /-- An input, `none` if the app has no sender any more; `written` says whether a write
  succeeds. -/
  | cmd (c : Option PtyIn) (written : Bool)

namespace Pump

def new : Pump := ⟨none, false, true, false⟩

/-- The loop is over. -/
def leave (s : Pump) : Pump × List PumpEffect :=
  ({ s with ended := true }, if s.exited then [.output (.exit s.status)] else [])

def hears (s : Pump) (m : Option ChannelMsg) (kept : Bool) : Pump × List PumpEffect :=
  match m with
  | some (.data d) | some (.extendedData d) =>
    if kept then (s, [.output (.data d)]) else ({ s with ended := true }, [.close])
  | some (.exitStatus status) => ({ s with status := some status, exited := true }, [])
  | some .exitSignal => ({ s with exited := true }, [])
  | some .close | none => s.leave
  | some .success | some .failure | some .other => (s, [])

def takes (s : Pump) (c : Option PtyIn) (written : Bool) : Pump × List PumpEffect :=
  match c with
  | some (.data d) => if written then (s, [.data d]) else s.leave
  | some (.resize size) => (s, [.windowChange size])
  | some .close | none => ({ s with inputOpen := false }, [.eof, .close])

def step (s : Pump) (turn : Turn) : Pump × List PumpEffect :=
  if s.ended then (s, [])
  else match turn with
    | .msg m kept => s.hears m kept
    | .cmd c written => if s.inputOpen then s.takes c written else (s, [])

end Pump

/-- The channel is closed, or the connection gone. -/
def Ends : Option ChannelMsg → Bool
  | some .close | none => true
  | _ => false

def answer (b : Bool) : Option ChannelMsg := some (if b then .success else .failure)

/-- Neither an answer nor the end. -/
def Quiet (m : Option ChannelMsg) : Bool := !Ends m && m ≠ answer true && m ≠ answer false

/-- What was received until the channel closed. -/
def live (msgs : List (Option ChannelMsg)) : List (Option ChannelMsg) := msgs.takeWhile (!Ends ·)

def output : Option ChannelMsg → Option (List UInt8)
  | some (.data d) | some (.extendedData d) => some d
  | _ => none

/-- The output in some messages. -/
def bytes (msgs : List (Option ChannelMsg)) : List UInt8 := (msgs.filterMap output).flatten

/-- Messages before an answer that comes in time. -/
def QuietBefore (deadline : ℕ) (quiet : Incoming) : Prop :=
  ∀ x ∈ quiet, x.1 ≤ deadline ∧ Quiet x.2

def lastAt (now : ℕ) (incoming : Incoming) : ℕ := incoming.foldl (fun now x => max now x.1) now

/-- The next requests get these answers, each in time. -/
inductive Answered : ℕ → Incoming → List Bool → ℕ → Incoming → Prop
  | nil {now : ℕ} {incoming : Incoming} : Answered now incoming [] now incoming
  | cons {now t now' : ℕ} {quiet rest rest' : Incoming} {b : Bool} {bs : List Bool} :
      QuietBefore (now + replyTimeout) quiet → t ≤ now + replyTimeout →
      Answered (max (lastAt now quiet) t) rest bs now' rest' →
      Answered now (quiet ++ (t, answer b) :: rest) (b :: bs) now' rest'

/-- The next request gets no answer in time, or the channel closes first. -/
def Unanswered (now : ℕ) (incoming : Incoming) : Prop :=
  ∃ quiet rest, incoming = quiet ++ rest ∧ QuietBefore (now + replyTimeout) quiet ∧
    ∀ t m rest', rest = (t, m) :: rest' → now + replyTimeout < t ∨ Ends m

section Replies

variable {now deadline : ℕ} {what : String} {sent : List Request} {early : List UInt8}
  {quiet rest incoming : Incoming}

theorem bytes_append (msgs msgs' : List (Option ChannelMsg)) :
    bytes (msgs ++ msgs') = bytes msgs ++ bytes msgs' := by
  rw [bytes, List.filterMap_append, List.flatten_append, bytes, bytes]

@[simp] theorem bytes_nil : bytes [] = [] := rfl

@[simp] theorem bytes_cons (m : Option ChannelMsg) (msgs : List (Option ChannelMsg)) :
    bytes (m :: msgs) = (output m).getD [] ++ bytes msgs := by
  cases h : output m <;> simp [bytes, h]

theorem ends_cases {m : Option ChannelMsg} (h : Ends m) : m = none ∨ m = some .close := by
  rcases m with _ | (_ | _ | d | d | status | _ | _ | _) <;> simp_all [Ends]

theorem hear_cons {t : ℕ} {m : Option ChannelMsg} (ht : t ≤ deadline) (hm : Quiet m) :
    hear deadline what sent now early ((t, m) :: rest) =
      hear deadline what sent (max now t) (early ++ (output m).getD []) rest := by
  have hlate : ¬deadline < t := Nat.not_lt.mpr ht
  rcases m with _ | (_ | _ | d | d | status | _ | _ | _)
  -- an answer or an end is not quiet
  all_goals first
    | exact absurd hm (by decide)
    | simp [hear, hlate, output]

/-- Quiet messages are heard through. -/
theorem hear_quiet (h : QuietBefore deadline quiet) :
    hear deadline what sent now early (quiet ++ rest) =
      hear deadline what sent (lastAt now quiet) (early ++ bytes (quiet.map Prod.snd)) rest := by
  induction quiet generalizing now early with
  | nil => simp [lastAt]
  | cons x quiet ih =>
    obtain ⟨⟨ht, hm⟩, hquiet⟩ := List.forall_mem_cons.mp h
    rw [List.cons_append, hear_cons ht hm, ih hquiet, List.map_cons, bytes_cons, List.append_assoc]
    rfl

/-- An answer in time is the answer to the request. -/
theorem hear_answer {t : ℕ} {b : Bool} (h : QuietBefore deadline quiet) (ht : t ≤ deadline) :
    hear deadline what sent now early (quiet ++ (t, answer b) :: rest) =
      (.ok b, ⟨max (lastAt now quiet) t, rest, early ++ bytes (quiet.map Prod.snd), sent⟩) := by
  rw [hear_quiet h]
  have hlate : ¬deadline < t := Nat.not_lt.mpr ht
  cases b <;> simp [hear, answer, hlate]

/-- Without an answer in time there is an error, and nothing is sent. -/
theorem hear_unanswered (h : QuietBefore deadline quiet)
    (hrest : ∀ t m rest', rest = (t, m) :: rest' → deadline < t ∨ Ends m) :
    ∃ e w, hear deadline what sent now early (quiet ++ rest) = (.error e, w) ∧ w.sent = sent := by
  rw [hear_quiet h]
  rcases rest with _ | ⟨⟨t, m⟩, rest⟩
  · exact ⟨_, _, rfl, rfl⟩
  · by_cases hlate : deadline < t
    · simp only [hear, hlate, if_true]
      exact ⟨_, _, rfl, rfl⟩
    · rcases ends_cases ((hrest t m rest rfl).resolve_left hlate) with rfl | rfl
      · simp only [hear, hlate, if_false]
        exact ⟨_, _, rfl, rfl⟩
      · simp only [hear, hlate, if_false]
        exact ⟨_, _, rfl, rfl⟩

end Replies

section Setup

variable {write : Request → Except String Unit} {w : Wire} {now now' : ℕ} {bs cs : List Bool}
  {incoming rest rest' : Incoming} {size : TermSize} {env : List (String × String)}
  {command : Bool → String}

/-- The output until the channel closed. -/
def liveBytes (incoming : Incoming) : List UInt8 := bytes (live (incoming.map Prod.snd))

theorem liveBytes_quiet {deadline : ℕ} {quiet : Incoming} (h : QuietBefore deadline quiet)
    (rest : Incoming) : liveBytes (quiet ++ rest) = bytes (quiet.map Prod.snd) ++ liveBytes rest := by
  have hlive : ∀ m ∈ quiet.map Prod.snd, (!Ends m) = true := by
    intro m hm
    obtain ⟨x, hx, rfl⟩ := List.mem_map.mp hm
    have hq := (h x hx).2
    simp only [Quiet, Bool.and_eq_true] at hq
    exact hq.1.1
  rw [liveBytes, List.map_append, live, List.takeWhile_append_of_pos hlive, bytes_append, liveBytes,
    live]

theorem liveBytes_answer (t : ℕ) (b : Bool) (rest : Incoming) :
    liveBytes ((t, answer b) :: rest) = liveBytes rest := by
  cases b <;> rfl

theorem answered_nil : Answered now incoming [] now' rest' ↔ now' = now ∧ rest' = incoming := by
  constructor
  · intro h
    cases h
    exact ⟨rfl, rfl⟩
  · rintro ⟨rfl, rfl⟩
    exact .nil

theorem answered_cons {b : Bool} : Answered now incoming (b :: bs) now' rest' ↔
    ∃ quiet t rest, incoming = quiet ++ (t, answer b) :: rest ∧
      QuietBefore (now + replyTimeout) quiet ∧ t ≤ now + replyTimeout ∧
        Answered (max (lastAt now quiet) t) rest bs now' rest' := by
  constructor
  · intro h
    cases h with
    | cons hquiet ht h => exact ⟨_, _, _, rfl, hquiet, ht, h⟩
  · rintro ⟨quiet, t, rest, rfl, hquiet, ht, h⟩
    exact .cons hquiet ht h

theorem answered_append : Answered now incoming (bs ++ cs) now' rest' ↔
    ∃ mid rest, Answered now incoming bs mid rest ∧ Answered mid rest cs now' rest' := by
  constructor
  · intro h
    induction bs generalizing now incoming with
    | nil => exact ⟨now, incoming, .nil, h⟩
    | cons b bs ih =>
      obtain ⟨quiet, t, rest, rfl, hquiet, ht, h⟩ := answered_cons.mp h
      obtain ⟨mid, rest₁, hbs, hcs⟩ := ih h
      exact ⟨mid, rest₁, .cons hquiet ht hbs, hcs⟩
  · rintro ⟨mid, rest, hbs, hcs⟩
    induction hbs with
    | nil => exact hcs
    | cons hquiet ht _ ih => exact .cons hquiet ht (ih hcs)

/-- The first answer, and the others. -/
theorem Answered.uncons {b : Bool} (h : Answered now incoming (b :: bs) now' rest') :
    ∃ mid rest, Answered now incoming [b] mid rest ∧ Answered mid rest bs now' rest' :=
  answered_append.mp (show Answered now incoming ([b] ++ bs) now' rest' from h)

theorem ask_answered (hw : ∀ r, write r = .ok ()) (r : Request) (what : String) {b : Bool}
    (h : Answered w.now w.incoming [b] now' rest) :
    ∃ early, ask write r what w = (.ok b, ⟨now', rest, early, w.sent ++ [r]⟩) ∧
      early ++ liveBytes rest = w.early ++ liveBytes w.incoming := by
  obtain ⟨quiet, t, rest₁, hin, hquiet, ht, h⟩ := answered_cons.mp h
  obtain ⟨rfl, rfl⟩ := answered_nil.mp h
  refine ⟨w.early ++ bytes (quiet.map Prod.snd), ?_, ?_⟩
  · simp only [ask, hw, reply, hin]
    exact hear_answer hquiet ht
  · rw [hin, liveBytes_quiet hquiet, liveBytes_answer, List.append_assoc]

theorem ask_unanswered (hw : ∀ r, write r = .ok ()) (r : Request) (what : String)
    (h : Unanswered w.now w.incoming) :
    ∃ e w', ask write r what w = (.error e, w') ∧ w'.sent = w.sent ++ [r] := by
  obtain ⟨now, incoming, early, sent⟩ := w
  obtain ⟨quiet, rest, rfl, hquiet, hrest⟩ := h
  rw [ask, hw]
  exact hear_unanswered hquiet hrest

theorem quiet_or (m : Option ChannelMsg) : Quiet m ∨ Ends m ∨ ∃ b, m = answer b := by
  by_cases h : Quiet m
  · exact Or.inl h
  · by_cases he : Ends m
    · exact Or.inr (Or.inl he)
    · refine Or.inr (Or.inr ?_)
      by_cases ht : m = answer true
      · exact ⟨true, ht⟩
      · exact ⟨false, by simpa [Quiet, he, ht] using h⟩

theorem quietBefore_cons {deadline t : ℕ} {m : Option ChannelMsg} {quiet : Incoming}
    (ht : t ≤ deadline) (hm : Quiet m) (h : QuietBefore deadline quiet) :
    QuietBefore deadline ((t, m) :: quiet) :=
  List.forall_mem_cons.mpr ⟨⟨ht, hm⟩, h⟩

/-- A request is answered in time, or it is not. -/
theorem exists_reply (now : ℕ) (incoming : Incoming) :
    (∃ quiet t b rest, incoming = quiet ++ (t, answer b) :: rest ∧
      QuietBefore (now + replyTimeout) quiet ∧ t ≤ now + replyTimeout) ∨
    Unanswered now incoming := by
  induction incoming with
  | nil => exact Or.inr ⟨[], [], rfl, nofun, nofun⟩
  | cons x incoming ih =>
    obtain ⟨t, m⟩ := x
    by_cases hlate : now + replyTimeout < t
    · refine Or.inr ⟨[], _, rfl, nofun, ?_⟩
      rintro _ _ _ ⟨⟩
      exact Or.inl hlate
    · have ht : t ≤ now + replyTimeout := Nat.le_of_not_lt hlate
      rcases quiet_or m with hm | hm | ⟨b, rfl⟩
      · rcases ih with ⟨quiet, t', b, rest, rfl, hquiet, ht'⟩ | ⟨quiet, rest, rfl, hquiet, hrest⟩
        · exact Or.inl ⟨(t, m) :: quiet, t', b, rest, rfl, quietBefore_cons ht hm hquiet, ht'⟩
        · exact Or.inr ⟨(t, m) :: quiet, rest, rfl, quietBefore_cons ht hm hquiet, hrest⟩
      · refine Or.inr ⟨[], _, rfl, nofun, ?_⟩
        rintro _ _ _ ⟨⟩
        exact Or.inr hm
      · exact Or.inl ⟨[], t, b, incoming, rfl, nofun, ht⟩

/-- The next requests are answered, all of them or up to one that is not. -/
theorem exists_answered (n now : ℕ) (incoming : Incoming) :
    ∃ bs now' rest, Answered now incoming bs now' rest ∧
      (bs.length = n ∨ bs.length < n ∧ Unanswered now' rest) := by
  induction n generalizing now incoming with
  | zero => exact ⟨[], now, incoming, .nil, Or.inl rfl⟩
  | succ n ih =>
    rcases exists_reply now incoming with ⟨quiet, t, b, rest, rfl, hquiet, ht⟩ | hun
    · obtain ⟨bs, now', rest', h, hlen⟩ := ih (max (lastAt now quiet) t) rest
      refine ⟨b :: bs, now', rest', .cons hquiet ht h, ?_⟩
      rcases hlen with hlen | ⟨hlen, hun⟩
      · exact Or.inl (congrArg Nat.succ hlen)
      · exact Or.inr ⟨Nat.succ_lt_succ hlen, hun⟩
    · exact ⟨[], now, incoming, .nil, Or.inr ⟨Nat.succ_pos n, hun⟩⟩

def envRequests (env : List (String × String)) : List Request := env.map fun x => .env x.1 x.2

/-- Every variable is answered: the command learns whether all of them were accepted. -/
theorem setEnvs_answered (hw : ∀ r, write r = .ok ()) (hlen : bs.length = env.length)
    (h : Answered w.now w.incoming bs now' rest) (accepted : Bool) :
    ∃ early, setEnvs write env accepted w =
        (.ok (accepted && bs.all id), ⟨now', rest, early, w.sent ++ envRequests env⟩) ∧
      early ++ liveBytes rest = w.early ++ liveBytes w.incoming := by
  induction env generalizing bs w accepted with
  | nil =>
    obtain rfl := List.length_eq_zero_iff.mp hlen
    obtain ⟨rfl, rfl⟩ := answered_nil.mp h
    exact ⟨w.early, by simp [setEnvs, envRequests], rfl⟩
  | cons x env ih =>
    obtain ⟨b, bs, rfl⟩ := List.exists_cons_of_length_eq_add_one hlen
    obtain ⟨mid, rest₁, hb, hbs⟩ := h.uncons
    obtain ⟨early₁, hask, hearly₁⟩ := ask_answered hw (.env x.1 x.2) "env" hb
    obtain ⟨early, henvs, hearly⟩ := ih (w := ⟨mid, rest₁, early₁, w.sent ++ [.env x.1 x.2]⟩)
      (Nat.succ.inj hlen) hbs (accepted && b)
    refine ⟨early, ?_, hearly.trans hearly₁⟩
    rw [setEnvs, hask]
    simp only [henvs]
    simp [envRequests, Bool.and_assoc]

/-- A variable without an answer ends it, and nothing is sent after. -/
theorem setEnvs_unanswered (hw : ∀ r, write r = .ok ()) (hlen : bs.length < env.length)
    (h : Answered w.now w.incoming bs now' rest) (hun : Unanswered now' rest) (accepted : Bool) :
    ∃ e w', setEnvs write env accepted w = (.error e, w') ∧
      w'.sent = w.sent ++ (envRequests env).take (bs.length + 1) := by
  induction env generalizing bs w accepted with
  | nil => cases hlen
  | cons x env ih =>
    rw [setEnvs]
    cases bs with
    | nil =>
      obtain ⟨rfl, rfl⟩ := answered_nil.mp h
      obtain ⟨e, w', hask, hsent⟩ := ask_unanswered hw (.env x.1 x.2) "env" hun
      exact ⟨e, w', by rw [hask], hsent⟩
    | cons b bs =>
      obtain ⟨mid, rest₁, hb, hbs⟩ := h.uncons
      obtain ⟨early₁, hask, -⟩ := ask_answered hw (.env x.1 x.2) "env" hb
      obtain ⟨e, w', henvs, hsent⟩ := ih (w := ⟨mid, rest₁, early₁, w.sent ++ [.env x.1 x.2]⟩)
        (Nat.lt_of_succ_lt_succ hlen) hbs (accepted && b)
      refine ⟨e, w', by rw [hask]; exact henvs, ?_⟩
      rw [hsent]
      simp [envRequests]

/-- The requests of a setup whose variables are answered so. -/
def requests (size : TermSize) (env : List (String × String)) (command : Bool → String)
    (envs : List Bool) : List Request :=
  .pty "xterm-256color" size :: (envRequests env ++ [.exec (command (envs.all id))])

/-- The answers of a setup that succeeds. -/
def accepted (envs : List Bool) : List Bool := true :: envs ++ [true]

/-- How a setup fails after some answers, and after how many requests. -/
inductive Failure (n : ℕ) : List Bool → ℕ → Incoming → ℕ → Prop
  | pty {now : ℕ} {rest : Incoming} : Failure n [false] now rest 1
  | exec {envs : List Bool} {now : ℕ} {rest : Incoming} : envs.length = n →
      Failure n (true :: envs ++ [false]) now rest (n + 2)
  | unanswered {bs : List Bool} {now : ℕ} {rest : Incoming} : bs.length < n + 2 →
      bs.head? ≠ some false → Unanswered now rest → Failure n bs now rest (bs.length + 1)

/-- Up to the command, where the PTY was accepted and every variable answered. -/
theorem setup_execute (size : TermSize) (command : Bool → String)
    (hw : ∀ r, write r = .ok ()) {envs : List Bool}
    (hlen : envs.length = env.length) (h : Answered now incoming (true :: envs) now' rest) :
    ∃ early, setup write size env command ⟨now, incoming, [], []⟩ =
        execute write (command (envs.all id))
          ⟨now', rest, early, .pty "xterm-256color" size :: envRequests env⟩ ∧
      early ++ liveBytes rest = liveBytes incoming := by
  obtain ⟨now₁, rest₁, hpty, henvs⟩ := h.uncons
  obtain ⟨early₁, hpty, he₁⟩ := ask_answered (w := ⟨now, incoming, [], []⟩) hw
    (.pty "xterm-256color" size) "pty" hpty
  obtain ⟨early₂, henvs, he₂⟩ := setEnvs_answered
    (w := ⟨now₁, rest₁, early₁, [] ++ [.pty "xterm-256color" size]⟩) hw hlen henvs true
  refine ⟨early₂, ?_, he₂.trans he₁⟩
  rw [setup, hpty]
  simp only [henvs, Bool.true_and]
  rfl

theorem setup_answered (size : TermSize) (command : Bool → String)
    (hw : ∀ r, write r = .ok ()) {envs : List Bool}
    (hlen : envs.length = env.length) (h : Answered now incoming (accepted envs) now' rest) :
    ∃ early, setup write size env command ⟨now, incoming, [], []⟩ =
        (.ok early, ⟨now', rest, early, requests size env command envs⟩) ∧
      early ++ liveBytes rest = liveBytes incoming := by
  rw [accepted] at h
  obtain ⟨mid, rest₁, henvs, hexec⟩ := answered_append.mp h
  obtain ⟨early₁, hsetup, he₁⟩ := setup_execute size command hw hlen henvs
  obtain ⟨early, hask, he⟩ := ask_answered (w := ⟨mid, rest₁, early₁, _⟩) hw
    (.exec (command (envs.all id))) "exec" hexec
  refine ⟨early, ?_, he.trans he₁⟩
  rw [hsetup, execute, hask]
  rfl

/-- A setup that fails sends nothing after the request that failed. -/
theorem setup_fails (size : TermSize) (command : Bool → String)
    (hw : ∀ r, write r = .ok ()) {k : ℕ}
    (h : Answered now incoming bs now' rest) (hf : Failure env.length bs now' rest k) :
    ∃ e w, setup write size env command ⟨now, incoming, [], []⟩ = (.error e, w) ∧
      w.sent = (requests size env command (bs.tail.take env.length)).take k := by
  have hcount : (envRequests env).length = env.length := List.length_map ..
  cases hf with
  | pty =>
    obtain ⟨early, hpty, -⟩ := ask_answered (w := ⟨now, incoming, [], []⟩) hw
      (.pty "xterm-256color" size) "pty" h
    exact ⟨_, _, by rw [setup, hpty], rfl⟩
  | @exec envs _ _ hlen =>
    obtain ⟨mid, rest₁, henvs, hexec⟩ := answered_append.mp h
    obtain ⟨early₁, hsetup, -⟩ := setup_execute size command hw hlen henvs
    obtain ⟨early, hask, -⟩ := ask_answered (w := ⟨mid, rest₁, early₁, _⟩) hw
      (.exec (command (envs.all id))) "exec" hexec
    have htake : (true :: envs ++ [false]).tail.take env.length = envs := List.take_left' hlen
    rw [hsetup, execute, hask, htake, List.take_of_length_le (by simp [requests, hcount])]
    exact ⟨_, _, rfl, rfl⟩
  | unanswered hlen hhead hun =>
    cases bs with
    | nil =>
      obtain ⟨rfl, rfl⟩ := answered_nil.mp h
      obtain ⟨e, w, hpty, hsent⟩ := ask_unanswered (w := ⟨now', rest, [], []⟩) hw
        (.pty "xterm-256color" size) "pty" hun
      exact ⟨e, w, by rw [setup, hpty], hsent⟩
    | cons b bs =>
      obtain rfl : b = true := by simpa using hhead
      by_cases hshort : bs.length < env.length
      · obtain ⟨now₁, rest₁, hpty, h⟩ := h.uncons
        obtain ⟨early₁, hpty, -⟩ := ask_answered (w := ⟨now, incoming, [], []⟩) hw
          (.pty "xterm-256color" size) "pty" hpty
        obtain ⟨e, w, henvs, hsent⟩ := setEnvs_unanswered
          (w := ⟨now₁, rest₁, early₁, [] ++ [.pty "xterm-256color" size]⟩) hw hshort h hun true
        rw [setup, hpty]
        simp only [henvs]
        refine ⟨e, w, rfl, ?_⟩
        rw [hsent, requests, List.length_cons, List.take_succ_cons,
          List.take_append_of_le_length (by rw [hcount]; exact hshort)]
        rfl
      · have hfull : bs.length = env.length := by
          simp only [List.length_cons] at hlen
          omega
        obtain ⟨early₁, hsetup, -⟩ := setup_execute size command hw hfull h
        obtain ⟨e, w, hask, hsent⟩ := ask_unanswered (w := ⟨now', rest, early₁, _⟩) hw
          (.exec (command (bs.all id))) "exec" hun
        rw [hsetup, execute, hask]
        refine ⟨e, w, rfl, ?_⟩
        rw [hsent, List.tail_cons, List.take_of_length_le (Nat.le_of_eq hfull),
          List.take_of_length_le (by simp [requests, hcount, hfull])]
        rfl

end Setup

section Output

open Machine

def Turn.message : Turn → Option (Option ChannelMsg)
  | .msg m _ => some m
  | .cmd .. => none

/-- The app keeps its receiver, and a write succeeds. -/
def Turn.Works : Turn → Prop
  | .msg _ kept => kept
  | .cmd _ written => written

/-- The messages that were read, in order. -/
def messages (turns : List Turn) : List (Option ChannelMsg) := turns.filterMap Turn.message

/-- What the app receives. -/
def received (effects : List PumpEffect) : List PtyOut :=
  effects.filterMap fun
    | .output o => some o
    | _ => none

def Exits : Option ChannelMsg → Bool
  | some (.exitStatus _) | some .exitSignal => true
  | _ => false

def statusOf : Option ChannelMsg → Option (Option ℕ)
  | some (.exitStatus status) => some (some status)
  | _ => none

/-- The exit that some messages report, with its latest status. -/
def report (msgs : List (Option ChannelMsg)) : List PtyOut :=
  if msgs.any Exits then [.exit (Log.latest statusOf none msgs)] else []

def chunks (msgs : List (Option ChannelMsg)) : List PtyOut := (msgs.filterMap output).map .data

/-- The task after it read some messages, and what the app received. -/
structure Pumped (msgs : List (Option ChannelMsg)) (s : Pump) (out : List PtyOut) : Prop where
  ended : s.ended = msgs.any Ends
  exited : ¬s.ended → s.exited = msgs.any Exits
  status : ¬s.ended → s.status = Log.latest statusOf none msgs
  received : out = chunks (live msgs) ++ if msgs.any Ends then report (live msgs) else []

variable {msgs : List (Option ChannelMsg)} {s : Pump} {out : List PtyOut} {turn : Turn}

theorem live_of_not_any (h : msgs.any Ends = false) (msgs' : List (Option ChannelMsg)) :
    live (msgs ++ msgs') = msgs ++ live msgs' := by
  rw [List.any_eq_false] at h
  exact List.takeWhile_append_of_pos (by simpa using h)

theorem live_append_of_any (h : msgs.any Ends) (msgs' : List (Option ChannelMsg)) :
    live (msgs ++ msgs') = live msgs := by
  induction msgs with
  | nil => cases h
  | cons m msgs ih =>
    by_cases hm : Ends m
    · simp [live, hm]
    · rw [List.any_cons, Bool.or_eq_true] at h
      simpa [live, hm] using ih (h.resolve_left hm)

theorem chunks_append (msgs msgs' : List (Option ChannelMsg)) :
    chunks (msgs ++ msgs') = chunks msgs ++ chunks msgs' := by
  rw [chunks, List.filterMap_append, List.map_append, chunks, chunks]

/-- A task that reads on: the app received the output so far. -/
theorem Pumped.running (h : Pumped msgs s out) (hs : s.ended = false) :
    msgs.any Ends = false ∧ out = chunks msgs ∧ s.exited = msgs.any Exits ∧
      s.status = Log.latest statusOf none msgs := by
  have hno : msgs.any Ends = false := h.ended.symm.trans hs
  have hlive := live_of_not_any hno []
  rw [List.append_nil] at hlive
  refine ⟨hno, ?_, h.exited (by simp [hs]), h.status (by simp [hs])⟩
  rw [h.received, hno, hlive]
  simp [live]

/-- A message that does not end the channel. -/
theorem hears_of_not_ends {m : Option ChannelMsg} (hm : ¬Ends m) : s.hears m true =
    ({ s with status := (statusOf m).getD s.status, exited := s.exited || Exits m },
      (output m).toList.map fun d => .output (.data d)) := by
  rcases m with _ | (_ | _ | d | d | status | _ | _ | _)
  all_goals first
    | exact absurd rfl hm
    | simp [Pump.hears, statusOf, Exits, output]

theorem hears_of_ends {m : Option ChannelMsg} (hm : Ends m) : s.hears m true = s.leave := by
  rcases ends_cases hm with rfl | rfl <;> rfl

theorem Pumped.hears (h : Pumped msgs s out) (m : Option ChannelMsg) :
    Pumped (msgs ++ [m]) (s.step (.msg m true)).1
      (out ++ SshPty.received (s.step (.msg m true)).2) := by
  by_cases hs : s.ended
  · -- nothing is read any more
    have hany : msgs.any Ends := h.ended ▸ hs
    have hany' : (msgs ++ [m]).any Ends := by rw [List.any_append, hany, Bool.true_or]
    have hstep : s.step (.msg m true) = (s, []) := if_pos hs
    rw [hstep]
    refine ⟨hs.trans hany'.symm, fun h => absurd hs h, fun h => absurd hs h, ?_⟩
    rw [live_append_of_any hany, hany', h.received, hany]
    exact List.append_nil _
  · rw [Bool.not_eq_true] at hs
    obtain ⟨hno, rfl, hexited, hstatus⟩ := h.running hs
    have hlive := live_of_not_any hno [m]
    have hstep : s.step (.msg m true) = s.hears m true := if_neg (by simp [hs])
    have hany : (msgs ++ [m]).any Ends = Ends m := by simp [hno]
    rw [hstep]
    by_cases hm : Ends m
    · rw [hears_of_ends hm]
      refine ⟨hany ▸ hm.symm, fun h => absurd rfl h, fun h => absurd rfl h, ?_⟩
      have hlast : live [m] = [] := by simp [live, hm]
      rw [hlive, hany, hm, hlast, List.append_nil, report, ← hexited, ← hstatus]
      simp only [Pump.leave, SshPty.received]
      split_ifs <;> rfl
    · rw [hears_of_not_ends hm]
      have hone : live [m] = [m] := by simp [live, hm]
      refine ⟨by rw [hany, hs, Bool.not_eq_true _ |>.mp hm], fun _ => ?_, fun _ => ?_, ?_⟩
      · simp [hexited]
      · rw [Log.latest_concat, hstatus]
      · rw [hlive, hone, chunks_append, hany, if_neg hm, List.append_nil]
        cases hout : output m <;> simp [chunks, hout, SshPty.received]

theorem Pumped.takes (h : Pumped msgs s out) (c : Option PtyIn) :
    Pumped msgs (s.step (.cmd c true)).1 (out ++ SshPty.received (s.step (.cmd c true)).2) := by
  by_cases hopen : ¬s.ended ∧ s.inputOpen
  · rcases c with _ | (d | size | _)
    all_goals
      simp only [Pump.step, hopen]
      simpa [Pump.takes, SshPty.received] using ⟨h.ended, h.exited, h.status, h.received⟩
  · have hstep : s.step (.cmd c true) = (s, []) := by
      by_cases hs : s.ended
      · exact if_pos hs
      · simp_all [Pump.step]
    rw [hstep]
    exact (List.append_nil out).symm ▸ h

theorem pumped_run (turns : List Turn) (hw : ∀ turn ∈ turns, turn.Works) :
    Pumped (messages turns) (run Pump.step .new turns)
      (SshPty.received (outputs Pump.step .new turns)) := by
  induction turns using List.reverseRecOn with
  | nil => exact ⟨rfl, fun _ => rfl, fun _ => rfl, rfl⟩
  | append_singleton turns turn ih =>
    have hturns := ih fun t ht => hw t (List.mem_append_left _ ht)
    have hturn := hw turn List.mem_concat_self
    rw [run_concat, outputs_concat, SshPty.received, List.filterMap_append]
    cases turn with
    | msg m kept =>
      cases (show kept = true from hturn)
      rw [messages, List.filterMap_append]
      exact hturns.hears m
    | cmd c written =>
      cases (show written = true from hturn)
      rw [messages, List.filterMap_append]
      exact (List.append_nil _).symm ▸ hturns.takes c

end Output

section Lossless

variable {write : Request → Except String Unit} {now now' : ℕ} {bs : List Bool}
  {incoming rest : Incoming} {size : TermSize} {env : List (String × String)}
  {command : Bool → String}

theorem start_answered (size : TermSize) (command : Bool → String)
    (hw : ∀ r, write r = .ok ()) {envs : List Bool}
    (hlen : envs.length = env.length) (h : Answered now incoming (accepted envs) now' rest) :
    ∃ early, start write size env command now incoming =
        ⟨.ok (if early = [] then [] else [.data early]),
          ⟨now', rest, early, requests size env command envs⟩, false⟩ ∧
      early ++ liveBytes rest = liveBytes incoming := by
  obtain ⟨early, hsetup, hearly⟩ := setup_answered size command hw hlen h
  exact ⟨early, by rw [start, hsetup], hearly⟩

theorem start_fails (size : TermSize) (command : Bool → String)
    (hw : ∀ r, write r = .ok ()) {k : ℕ}
    (h : Answered now incoming bs now' rest) (hf : Failure env.length bs now' rest k) :
    ∃ e, (start write size env command now incoming).result = .error e ∧
      (start write size env command now incoming).wire.sent =
        (requests size env command (bs.tail.take env.length)).take k ∧
      (start write size env command now incoming).closed := by
  obtain ⟨e, w, hsetup, hsent⟩ := setup_fails size command hw h hf
  refine ⟨e, ?_⟩
  rw [start, hsetup]
  exact ⟨rfl, hsent, rfl⟩

/-- A setup succeeds or fails. -/
theorem accepted_or_failure (n now : ℕ) (incoming : Incoming) :
    (∃ envs now' rest, envs.length = n ∧ Answered now incoming (accepted envs) now' rest) ∨
      ∃ bs now' rest k, Answered now incoming bs now' rest ∧ Failure n bs now' rest k := by
  obtain ⟨bs, now', rest, h, hlen⟩ := exists_answered (n + 2) now incoming
  rcases bs with _ | ⟨_ | _, bs⟩
  · rcases hlen with hlen | ⟨hlen, hun⟩
    · cases hlen
    · exact Or.inr ⟨[], now', rest, 1, h, .unanswered hlen (by simp) hun⟩
  · obtain ⟨mid, rest₁, hpty, -⟩ := h.uncons
    exact Or.inr ⟨[false], mid, rest₁, 1, hpty, .pty⟩
  · rcases hlen with hlen | ⟨hlen, hun⟩
    · rcases List.eq_nil_or_concat bs with rfl | ⟨envs, b, rfl⟩
      · cases hlen
      · have hn : envs.length = n := by simpa using hlen
        cases b with
        | true => exact Or.inl ⟨envs, now', rest, hn, by simpa [accepted] using h⟩
        | false =>
          exact Or.inr ⟨true :: envs ++ [false], now', rest, n + 2, by simpa using h, .exec hn⟩
    · exact Or.inr ⟨true :: bs, now', rest, _, h, .unanswered hlen (by simp) hun⟩

/-- Where the channel closes among the messages that were read, all of them were. -/
theorem live_of_prefix {msgs all : List (Option ChannelMsg)} (hp : msgs <+: all)
    (hends : msgs.any Ends) : live msgs = live all := by
  obtain ⟨more, rfl⟩ := hp
  exact (live_append_of_any hends more).symm

/-- As long as the app keeps its receiver and writes succeed: a terminal that starts told its
command whether the server accepted every variable, and gives the app the output of the channel
from its start until it closed, all of it and in order, and then the exit, if one was reported
after the command was accepted. Where a request is refused or not answered in time or the channel
closes, no later request is sent and the channel is closed. -/
theorem pty_lossless (write : Request → Except String Unit) (hw : ∀ r, write r = .ok ())
    (size : TermSize) (env : List (String × String)) (command : Bool → String) (now : ℕ)
    (incoming : Incoming) :
    (∀ out, (start write size env command now incoming).result = .ok out →
      ∃ envs now' rest, envs.length = env.length ∧
        Answered now incoming (accepted envs) now' rest ∧
        (start write size env command now incoming).wire.sent =
          requests size env command envs ∧
        ∀ turns, (∀ turn ∈ turns, turn.Works) → messages turns <+: rest.map Prod.snd →
          (messages turns).any Ends →
            ∃ data : List (List UInt8), out ++ received (Machine.outputs Pump.step .new turns) =
                data.map .data ++ report (live (rest.map Prod.snd)) ∧
              data.flatten = liveBytes incoming) ∧
      ∀ bs now' rest k, Answered now incoming bs now' rest →
        Failure env.length bs now' rest k →
        ∃ e, (start write size env command now incoming).result = .error e ∧
          (start write size env command now incoming).wire.sent =
            (requests size env command (bs.tail.take env.length)).take k ∧
          (start write size env command now incoming).closed := by
  refine ⟨fun out hout => ?_, fun bs now' rest k h hf => start_fails size command hw h hf⟩
  rcases accepted_or_failure env.length now incoming with
    ⟨envs, now', rest, hlen, h⟩ | ⟨bs, now', rest, k, h, hf⟩
  · obtain ⟨early, hstart, hearly⟩ := start_answered size command hw hlen h
    rw [hstart] at hout
    cases hout
    refine ⟨envs, now', rest, hlen, h, by rw [hstart], ?_⟩
    intro turns hworks hprefix hends
    have hlive := live_of_prefix hprefix hends
    refine ⟨(if early = [] then [] else [early]) ++ (live (rest.map Prod.snd)).filterMap output,
      ?_, ?_⟩
    · rw [(pumped_run turns hworks).received, if_pos hends, hlive, chunks, List.map_append,
        List.append_assoc]
      split_ifs <;> rfl
    · rw [← hearly, liveBytes, bytes, List.flatten_append]
      split_ifs with he
      · rw [he]
        rfl
      · simp
  · obtain ⟨e, herror, -⟩ := start_fails size command hw h hf
    cases herror.symm.trans hout

end Lossless

/-- A server that refuses the variable and writes before it accepts the command. -/
def refusesEnv : Incoming :=
  [(1, some .success), (2, some .failure), (3, some (.data [104])), (4, some .success),
    (5, some (.data [105])), (6, some (.exitStatus 0)), (7, some .close)]

/-- The variable was answered, and where the PTY is refused nothing else is requested. -/
theorem pty_lossless_refusesEnv :
    (∃ envs : List Bool, envs.length = 1 ∧
      (start (fun _ => .ok ()) ⟨80, 24⟩ [("LANG", "C")] (fun _ => "zellij") 0
        refusesEnv).wire.sent = requests ⟨80, 24⟩ [("LANG", "C")] (fun _ => "zellij") envs) ∧
      (start (fun _ => .ok ()) ⟨80, 24⟩ [("LANG", "C")] (fun _ => "zellij") 0
        [(1, answer false)]).wire.sent = [.pty "xterm-256color" ⟨80, 24⟩] := by
  have hsample := pty_lossless (fun _ => .ok ()) (fun _ => rfl) ⟨80, 24⟩ [("LANG", "C")]
    (fun _ => "zellij")
  constructor
  · obtain ⟨envs, -, -, hlen, -, hsent, -⟩ := (hsample 0 refusesEnv).1 [.data [104]] rfl
    exact ⟨envs, hlen, hsent⟩
  · have hrefused : Answered 0 [(1, answer false)] [false] 1 [] :=
      answered_cons.mpr ⟨[], 1, [], rfl, nofun, by decide, .nil⟩
    obtain ⟨-, -, hsent, -⟩ := (hsample 0 _).2 _ _ _ _ hrefused .pty
    exact hsent

end MultiAi.SshPty
