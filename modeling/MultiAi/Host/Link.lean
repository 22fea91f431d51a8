import MultiAi.Host.Task
import MultiAi.Protocol.Codec

/-! # The link to a probe

The app reads the stream of a probe line by line, first for a hello and then for one message
after another. A line that is no message is not to break the link; the reader of the lines gives
up on bytes that are not UTF-8 before a line is looked at.
-/

namespace MultiAi.Link

def helloTimeout : ℕ := 30000

def silenceTimeout : ℕ := 20000

def maxNoiseLines : ℕ := 50

def protocolVersion : ℕ := 1

/-- What the libraries say of bytes, lines and messages. -/
structure LinkLib where
  codec : JsonCodec
  /-- Why a line is no message. -/
  problem : String → String
  /-- Why a line that is not UTF-8 cannot be read. -/
  invalidData : String
  /-- A message as a debugger shows it. -/
  debug : ProbeMsg → String

inductive Arrival where
  | byte (b : UInt8)
  | fails (e : String)
  /-- The probe closed its output. -/
  | ends

/-- The reading end of a link: what was read of the next line, and what is there when. -/
structure ProbeLink where
  now : ℕ
  buf : List UInt8
  arrivals : List (ℕ × Arrival)

variable (lib : LinkLib)

/-- Read up to a newline; the last line of a stream may lack one. -/
def readBytes (deadline : ℕ) : ℕ → List UInt8 → List (ℕ × Arrival) →
    Except LinkError (List UInt8) × ProbeLink
  | _, buf, [] => (.error .silent, ⟨deadline, buf, []⟩)
  | now, buf, (t, a) :: rest =>
    if deadline < t then (.error .silent, ⟨deadline, buf, (t, a) :: rest⟩)
    else match a with
      | .byte b =>
        if b = Utf8.newline then (.ok (buf ++ [b]), ⟨max now t, [], rest⟩)
        else readBytes deadline (max now t) (buf ++ [b]) rest
      | .fails e => (.error (.io e), ⟨max now t, buf, rest⟩)
      | .ends =>
        (if buf = [] then .error .closed else .ok buf, ⟨max now t, [], (t, .ends) :: rest⟩)

/-- The text of a line, without its end. -/
def textOf (bytes : List UInt8) : Option String :=
  (Utf8.decode? bytes).map fun text => String.ofList (Lines.chomp '\n' '\r' text.toList)

def nextLine (timeout : ℕ) (s : ProbeLink) : Except LinkError String × ProbeLink :=
  match readBytes (s.now + timeout) s.now s.buf s.arrivals with
  | (.error e, s) => (.error e, s)
  | (.ok bytes, s) =>
    match textOf bytes with
    | none => (.error (.io lib.invalidData), s)
    | some line => (.ok line, s)

def decodeMsg (line : String) : Option ProbeMsg :=
  decodeLine lib.codec (ProbeMsg.decode lib.codec) line

def head (line : String) : String := String.ofList (line.toList.take 120)

def notHello (msg : ProbeMsg) : LinkError :=
  .noHello ("first message was not hello: " ++ lib.debug msg)

/-- The loop of `hello`: `tolerated` more lines may be noise. -/
def greet (deadline : ℕ) : ℕ → List String → ProbeLink → Except LinkError HelloInfo × ProbeLink
  | tolerated, noise, s =>
    match nextLine lib (deadline - s.now) s with
    | (.error e, s) => (.error e, s)
    | (.ok line, s) =>
      match decodeMsg lib line with
      | some (.hello version probeVersion os arch zellijPath zellijVersion) =>
        if version ≠ protocolVersion then (.error (.protocol version protocolVersion), s)
        else (.ok ⟨version, probeVersion, os, arch, zellijPath, zellijVersion⟩, s)
      | some other => (.error (notHello lib other), s)
      | none =>
        match tolerated with
        | 0 => (.error (.noHello ("unexpected output: " ++ head (noise.headD line))), s)
        | tolerated + 1 => greet deadline tolerated (noise ++ [line]) s

/-- Wait for a hello, past some lines that are no messages. -/
def hello (s : ProbeLink) : Except LinkError HelloInfo × ProbeLink :=
  greet lib (s.now + helloTimeout) maxNoiseLines [] s

/-- What a line that is no message is returned as. -/
def badLine (line : String) : ProbeMsg :=
  .error "bad_probe_line" (lib.problem line ++ ": " ++ head line)

def recv (s : ProbeLink) : Except LinkError ProbeMsg × ProbeLink :=
  match nextLine lib silenceTimeout s with
  | (.error e, s) => (.error e, s)
  | (.ok line, s) => (.ok ((decodeMsg lib line).getD (badLine lib line)), s)

def ProbeLink.later (s : ProbeLink) (ms : ℕ) : ProbeLink := { s with now := s.now + ms }

/-- One receive after each wait. -/
def recvs : ProbeLink → List ℕ → List (Except LinkError ProbeMsg)
  | _, [] => []
  | s, wait :: waits => (recv lib (s.later wait)).1 :: recvs (recv lib (s.later wait)).2 waits

/-- A line of the stream, and when its bytes are there. -/
structure TimedLine where
  bytes : List (ℕ × UInt8)
  /-- When its newline is there. -/
  ending : ℕ
  noNewline : Utf8.newline ∉ bytes.map Prod.snd

namespace TimedLine

variable (line : TimedLine)

def raw : List UInt8 := line.bytes.map Prod.snd ++ [Utf8.newline]

def arrivals : List (ℕ × Arrival) :=
  line.bytes.map (fun x => (x.1, .byte x.2)) ++ [(line.ending, .byte Utf8.newline)]

def InTime (deadline : ℕ) : Prop := (∀ x ∈ line.bytes, x.1 ≤ deadline) ∧ line.ending ≤ deadline

/-- When a reader that starts now has read the line. -/
def readAt (now : ℕ) : ℕ := max (line.bytes.foldl (fun now x => max now x.1) now) line.ending

/-- The line is UTF-8. -/
def Valid : Prop := ∃ text, Utf8.decode? line.raw = some text

/-- The message in the line. -/
def message : Option ProbeMsg := (textOf line.raw).bind (decodeMsg lib)

end TimedLine

/-- A receive returns the message in the line, or that there is none. -/
def Kept (line : TimedLine) (r : Except LinkError ProbeMsg) : Prop :=
  match line.message lib with
  | some msg => r = .ok msg
  | none => ∃ text, r = .ok (.error "bad_probe_line" text)

/-- The link where the next lines are these. -/
def upcoming (now : ℕ) (lines : List TimedLine) (rest : List (ℕ × Arrival)) : ProbeLink :=
  ⟨now, [], lines.flatMap TimedLine.arrivals ++ rest⟩

/-- Each line is there in time for its receive. -/
def Timely : ℕ → List (ℕ × TimedLine) → Prop
  | _, [] => True
  | now, (wait, line) :: lines =>
    line.InTime (now + wait + silenceTimeout) ∧ Timely (line.readAt (now + wait)) lines

section Lines

variable {lib} {line : TimedLine} {lines noise : List TimedLine} {rest : List (ℕ × Arrival)}
  {now deadline timeout : ℕ}

@[simp] theorem later_upcoming (ms : ℕ) :
    (upcoming now lines rest).later ms = upcoming (now + ms) lines rest := rfl

@[simp] theorem now_upcoming : (upcoming now lines rest).now = now := rfl

theorem readBytes_append {bytes : List (ℕ × UInt8)} (hno : Utf8.newline ∉ bytes.map Prod.snd)
    (h : ∀ x ∈ bytes, x.1 ≤ deadline) (now : ℕ) (buf : List UInt8)
    (rest : List (ℕ × Arrival)) :
    readBytes deadline now buf (bytes.map (fun x => (x.1, .byte x.2)) ++ rest) =
      readBytes deadline (bytes.foldl (fun now x => max now x.1) now)
        (buf ++ bytes.map Prod.snd) rest := by
  induction bytes generalizing now buf with
  | nil => simp
  | cons x bytes ih =>
    obtain ⟨hx, hbytes⟩ := List.forall_mem_cons.mp h
    simp only [List.map_cons, List.mem_cons, not_or] at hno
    simp only [List.map_cons, List.cons_append, readBytes, Nat.not_lt.mpr hx, if_false,
      Ne.symm hno.1, List.foldl_cons]
    rw [ih hno.2 hbytes, List.append_assoc, List.singleton_append]

theorem readBytes_line (h : line.InTime deadline) :
    readBytes deadline now [] (line.arrivals ++ rest) =
      (.ok line.raw, ⟨line.readAt now, [], rest⟩) := by
  rw [TimedLine.arrivals, List.append_assoc, readBytes_append line.noNewline h.1]
  simp only [List.singleton_append, readBytes, Nat.not_lt.mpr h.2, if_false, if_true,
    List.nil_append]
  rfl

theorem le_readAt (h : line.InTime deadline) (hnow : now ≤ deadline) :
    line.readAt now ≤ deadline := by
  refine Nat.max_le.mpr ⟨?_, h.2⟩
  have hbytes := h.1
  generalize line.bytes = bytes at hbytes
  induction bytes generalizing now with
  | nil => exact hnow
  | cons x bytes ih =>
    obtain ⟨hx, hrest⟩ := List.forall_mem_cons.mp hbytes
    exact ih (Nat.max_le.mpr ⟨hnow, hx⟩) hrest

theorem nextLine_upcoming (h : line.InTime (now + timeout)) :
    nextLine lib timeout (upcoming now (line :: lines) rest) =
      ((textOf line.raw).elim (.error (.io lib.invalidData)) .ok,
        upcoming (line.readAt now) lines rest) := by
  simp only [nextLine, upcoming, List.flatMap_cons, List.append_assoc, readBytes_line h]
  cases textOf line.raw <;> rfl

theorem textOf_isSome : line.Valid ↔ ∃ text, textOf line.raw = some text := by
  constructor
  · rintro ⟨text, h⟩
    exact ⟨_, by rw [textOf, h]; rfl⟩
  · rintro ⟨text, h⟩
    obtain ⟨text', h, -⟩ := Option.map_eq_some_iff.mp h
    exact ⟨text', h⟩

theorem recv_upcoming (h : line.InTime (now + silenceTimeout)) :
    recv lib (upcoming now (line :: lines) rest) =
      ((textOf line.raw).elim (.error (.io lib.invalidData))
          fun text => .ok ((decodeMsg lib text).getD (badLine lib text)),
        upcoming (line.readAt now) lines rest) := by
  rw [recv, nextLine_upcoming h]
  cases textOf line.raw <;> rfl

/-- A line is kept if it is UTF-8. -/
theorem kept_iff : Kept lib line ((textOf line.raw).elim (.error (.io lib.invalidData))
    fun text => .ok ((decodeMsg lib text).getD (badLine lib text))) ↔ line.Valid := by
  rw [textOf_isSome, Kept, TimedLine.message]
  cases textOf line.raw with
  | none => simp
  | some text =>
    simp only [Option.bind_some, Option.elim_some]
    cases hmsg : decodeMsg lib text with
    | none => exact ⟨fun _ => ⟨text, rfl⟩, fun _ => ⟨_, rfl⟩⟩
    | some msg => exact ⟨fun _ => ⟨text, rfl⟩, fun _ => rfl⟩

theorem recvs_iff {lines : List (ℕ × TimedLine)} (h : Timely now lines) :
    List.Forall₂ (fun x r => Kept lib x.2 r) lines
        (recvs lib (upcoming now (lines.map Prod.snd) rest) (lines.map Prod.fst)) ↔
      ∀ x ∈ lines, x.2.Valid := by
  induction lines generalizing now with
  | nil => simp [recvs]
  | cons x lines ih =>
    obtain ⟨hx, hlines⟩ := h
    simp only [List.map_cons, recvs, later_upcoming, recv_upcoming hx, List.forall₂_cons,
      kept_iff, ih hlines, List.forall_mem_cons]

/-- The hello of a probe that speaks the app's version. -/
def helloMsg (info : HelloInfo) : ProbeMsg :=
  .hello info.protocolVersion info.probeVersion info.os info.arch info.zellijPath
    info.zellijVersion

/-- Noise is skipped if it is UTF-8. -/
theorem greet_iff {info : HelloInfo} {tolerated : ℕ} {skipped : List String}
    (hlen : noise.length ≤ tolerated) (hnoise : ∀ n ∈ noise, n.message lib = none)
    (hmsg : line.message lib = some (helloMsg info))
    (hversion : info.protocolVersion = protocolVersion)
    (htime : ∀ l ∈ noise ++ [line], l.InTime deadline) (hnow : now ≤ deadline) :
    (greet lib deadline tolerated skipped (upcoming now (noise ++ [line]) rest)).1 = .ok info ↔
      ∀ n ∈ noise, n.Valid := by
  have hnext : ∀ {now n lines}, now ≤ deadline → TimedLine.InTime n deadline →
      nextLine lib (deadline - now) (upcoming now (n :: lines) rest) =
        ((textOf n.raw).elim (.error (.io lib.invalidData)) .ok,
          upcoming (n.readAt now) lines rest) := by
    intro now n lines hnow h
    exact nextLine_upcoming (by rwa [Nat.add_sub_cancel' hnow])
  induction noise generalizing tolerated skipped now with
  | nil =>
    obtain ⟨text, htext, hdecode⟩ := Option.bind_eq_some_iff.mp hmsg
    rw [List.nil_append, greet.eq_def]
    simp only [now_upcoming, hnext hnow (htime line (by simp)), htext, Option.elim_some, hdecode]
    cases info
    cases hversion
    simp [helloMsg, protocolVersion]
  | cons n noise ih =>
    obtain ⟨hn, hnoise⟩ := List.forall_mem_cons.mp hnoise
    obtain ⟨htn, htime⟩ := List.forall_mem_cons.mp htime
    rw [List.cons_append, greet.eq_def, List.forall_mem_cons, textOf_isSome]
    simp only [now_upcoming, hnext hnow htn]
    cases htext : textOf n.raw with
    | none => simp
    | some text =>
      have hdecode : decodeMsg lib text = none := by
        rwa [TimedLine.message, htext, Option.bind_some] at hn
      obtain ⟨tolerated, rfl⟩ : ∃ t, tolerated = t + 1 :=
        Nat.exists_eq_succ_of_ne_zero (Nat.ne_of_gt (Nat.lt_of_lt_of_le (Nat.succ_pos _) hlen))
      simp only [Option.elim_some, hdecode]
      refine (ih (Nat.le_of_succ_le_succ hlen) hnoise htime (le_readAt htn hnow)).trans ?_
      exact ⟨fun h => ⟨⟨text, rfl⟩, h⟩, fun h => h.2⟩

end Lines

/-- A line in another encoding. -/
def latin : TimedLine := ⟨[(0, 0xFF)], 0, by decide⟩

end MultiAi.Link
