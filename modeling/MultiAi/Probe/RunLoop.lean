import MultiAi.Probe.Server
import MultiAi.Protocol.Codec

/-! # The loop around a server

A thread reads the input line by line into a channel. The loop takes what is there, ticks the
server, adds metrics and heartbeats when they are due, and writes the messages of a pass as lines.
-/

namespace MultiAi.RunLoop

open HookMap

def heartbeatMs : ℕ := 5000

/-- What the libraries say of lines, messages and screens. -/
structure RunLib where
  codec : JsonCodec
  scrape : ScrapeLib
  /-- Why a line is no message. -/
  problem : String → String

variable (lib : RunLib)

/-- A line of the input, without its end. -/
def lineOf (bytes : List UInt8) : String := String.ofList (trimEnd (Utf8.lossy bytes))

def decodeApp (line : String) : Option AppMsg := decodeLine lib.codec AppMsg.decode line

def badMessage (line : String) : ProbeMsg :=
  .error "bad_message" (lib.problem line ++ ": " ++ String.ofList (line.toList.take 80))

/-- Apply one line of the input. A bad line is reported, not fatal. -/
def handleLine (s : Server) (a : Server.HandleAnswers) (line : String) : Server × List ProbeMsg :=
  if trim line.toList = [] then (s, [])
  else match decodeApp lib line with
    | some msg => ((s.handle lib.scrape a msg).1, (s.handle lib.scrape a msg).2.2)
    | none => (s, [badMessage lib line])

/-- The message in a line that is not blank. -/
def messageIn (line : String) : Option AppMsg :=
  if trim line.toList = [] then none else decodeApp lib line

/-- What a line that is neither blank nor a message is answered with. -/
def complaint (line : String) : Option ProbeMsg :=
  if trim line.toList = [] then none
  else match decodeApp lib line with
    | some _ => none
    | none => some (badMessage lib line)

/-- The thread that reads the input. -/
inductive Reader where
  | reading (buf : List UInt8)
  /-- The input ended inside a line, which was sent. -/
  | last
  /-- It has ended, and what it had read of a line when the input failed. -/
  | gone (lost : List UInt8)

inductive Phase where
  | greeting (hello : ProbeMsg)
  | waiting
  /-- Taking what else is in the channel, with the messages so far. -/
  | draining (msgs : List ProbeMsg)
  | ticking (msgs : List ProbeMsg)
  | ended (ok : Bool)

structure Loop where
  reader : Reader
  queue : List String
  server : Server
  lastMetrics : Option ℕ
  lastBeat : Option ℕ
  phase : Phase

/-- What happens in a run: to the input, and in the loop. -/
inductive Act where
  | byte (b : UInt8)
  | eof
  | fails
  | greet (written : Option ℕ)
  | recv (a : Server.HandleAnswers)
  /-- No line came within a tick. -/
  | timeout
  /-- The messages of a pass are written, or this many bytes of them. -/
  | pass (nowMs : ℕ) (a : TickAnswers) (sample : Metrics) (written : Option ℕ)

inductive Fact where
  | read (b : UInt8)
  | took (line : String)
  | served (i : Server.Input)
  | greeted (hello : ProbeMsg) (written : Option ℕ)
  | sent (nowMs : ℕ) (msgs : List ProbeMsg) (written : Option ℕ)

namespace Loop

def start (server : Server) (hello : ProbeMsg) : Loop :=
  ⟨.reading [], [], server, none, none, .greeting hello⟩

/-- A read that returns a line; at the end of the input it may lack its newline. -/
def readByte (s : Loop) (b : UInt8) : Loop × List Fact :=
  match s.reader with
  | .reading buf =>
    if b = Utf8.newline then
      ({ s with reader := .reading [], queue := s.queue ++ [lineOf (buf ++ [b])] }, [.read b])
    else ({ s with reader := .reading (buf ++ [b]) }, [.read b])
  | _ => (s, [])

def readEnd (s : Loop) : Loop :=
  match s.reader with
  | .reading [] => { s with reader := .gone [] }
  | .reading buf => { s with reader := .last, queue := s.queue ++ [lineOf buf] }
  | .last => { s with reader := .gone [] }
  | .gone _ => s

def readFails (s : Loop) : Loop :=
  match s.reader with
  | .reading buf => { s with reader := .gone buf }
  | .last => { s with reader := .gone [] }
  | .gone _ => s

/-- A write that fails ends the loop. -/
def afterSend : Option ℕ → Phase
  | none => .waiting
  | some _ => .ended false

def greet (s : Loop) (written : Option ℕ) : Loop × List Fact :=
  match s.phase with
  | .greeting hello => ({ s with phase := afterSend written }, [.greeted hello written])
  | _ => (s, [])

def takeLine (s : Loop) (a : Server.HandleAnswers) (msgs : List ProbeMsg) (line : String)
    (queue : List String) : Loop × List Fact :=
  ({ s with
      queue := queue
      server := (handleLine lib s.server a line).1
      phase := .draining (msgs ++ (handleLine lib s.server a line).2) },
    .took line :: ((messageIn lib line).map fun msg => .served (.app a msg)).toList)

/-- Take a line from the channel; one that is empty and closed ends the loop or, once a line was
taken, the taking. -/
def recv (s : Loop) (a : Server.HandleAnswers) : Loop × List Fact :=
  match s.phase, s.queue with
  | .waiting, line :: queue => s.takeLine lib a [] line queue
  | .waiting, [] =>
    match s.reader with
    | .gone _ => ({ s with phase := .ended true }, [])
    | _ => (s, [])
  | .draining msgs, line :: queue => s.takeLine lib a msgs line queue
  | .draining msgs, [] => ({ s with phase := .ticking msgs }, [])
  | _, _ => (s, [])

def timeout (s : Loop) : Loop :=
  match s.phase, s.queue, s.reader with
  | .waiting, [], .reading _ => { s with phase := .draining [] }
  | .waiting, [], .last => { s with phase := .draining [] }
  | _, _, _ => s

/-- The messages of a pass. -/
def passMsgs (s : Loop) (nowMs : ℕ) (a : TickAnswers) (sample : Metrics) (msgs : List ProbeMsg) :
    List ProbeMsg :=
  let (server, ticked) := s.server.tick lib.scrape nowMs a
  msgs ++ ticked ++
    (if due s.lastMetrics server.intervals.metricsMs nowMs then [.metrics sample] else []) ++
    if due s.lastBeat heartbeatMs nowMs then [.heartbeat nowMs] else []

def pass (s : Loop) (nowMs : ℕ) (a : TickAnswers) (sample : Metrics) (written : Option ℕ) :
    Loop × List Fact :=
  match s.phase with
  | .ticking msgs =>
    let server := (s.server.tick lib.scrape nowMs a).1
    ({ s with
        server := server
        lastMetrics :=
          if due s.lastMetrics server.intervals.metricsMs nowMs then some nowMs else s.lastMetrics
        lastBeat := if due s.lastBeat heartbeatMs nowMs then some nowMs else s.lastBeat
        phase := afterSend written },
      [.served (.tick nowMs a), .sent nowMs (s.passMsgs lib nowMs a sample msgs) written])
  | _ => (s, [])

def step (s : Loop) : Act → Loop × List Fact
  | .byte b => s.readByte b
  | .eof => (s.readEnd, [])
  | .fails => (s.readFails, [])
  | .greet written => s.greet written
  | .recv a => s.recv lib a
  | .timeout => (s.timeout, [])
  | .pass nowMs a sample written => s.pass lib nowMs a sample written

end Loop

/-- What was read of the input. -/
def input (log : List Fact) : List UInt8 := log.filterMap fun
  | .read b => some b
  | _ => none

def taken (log : List Fact) : List String := log.filterMap fun
  | .took line => some line
  | _ => none

/-- What the server was given. -/
def inputs (log : List Fact) : List Server.Input := log.filterMap fun
  | .served i => some i
  | _ => none

/-- The messages of the passes. -/
def passed (log : List Fact) : List ProbeMsg := log.flatMap fun
  | .sent _ msgs _ => msgs
  | _ => []

def greeted (log : List Fact) : List ProbeMsg := log.filterMap fun
  | .greeted hello _ => some hello
  | _ => none

def linesOf (msgs : List ProbeMsg) : List String :=
  msgs.map (encodeLine lib.codec (ProbeMsg.encode lib.codec))

/-- What a write leaves in the output. -/
def writeOf (msgs : List ProbeMsg) : Option ℕ → List UInt8
  | none => stream (linesOf lib msgs)
  | some n => (stream (linesOf lib msgs)).take n

def output (log : List Fact) : List UInt8 := log.flatMap fun
  | .greeted hello written => writeOf lib [hello] written
  | .sent _ msgs written => writeOf lib msgs written
  | _ => []

def appMsg : Server.Input → Option AppMsg
  | .app _ msg => some msg
  | .tick .. => none

/-- Messages of the loop itself. -/
def isBad : ProbeMsg → Bool
  | .error code _ => code = "bad_message"
  | _ => false

def isChatter : ProbeMsg → Bool
  | .hello .. => true
  | .metrics _ => true
  | .heartbeat _ => true
  | msg => isBad msg

namespace Loop

/-- What was read and not sent to the loop. -/
def partLine (s : Loop) : List UInt8 :=
  match s.reader with
  | .reading buf => buf
  | .last => []
  | .gone lost => lost

/-- The messages of a pass that is not over. -/
def unsent (s : Loop) : List ProbeMsg :=
  match s.phase with
  | .draining msgs => msgs
  | .ticking msgs => msgs
  | _ => []

/-- What one step can do. -/
inductive Moves (s : Loop) : Loop → List Fact → Prop
  | stays : Moves s s []
  | byte {buf : List UInt8} {b : UInt8} : s.reader = .reading buf → b ≠ Utf8.newline →
      Moves s { s with reader := .reading (buf ++ [b]) } [.read b]
  | line {buf : List UInt8} : s.reader = .reading buf →
      Moves s { s with
        reader := .reading []
        queue := s.queue ++ [lineOf (Lines.terminate Utf8.newline buf)] } [.read Utf8.newline]
  | rest {buf : List UInt8} : s.reader = .reading buf → buf ≠ [] →
      Moves s { s with reader := .last, queue := s.queue ++ [lineOf buf] } []
  | closes {lost : List UInt8} :
      s.reader = .reading lost ∨ s.reader = .last ∧ lost = [] →
      Moves s { s with reader := .gone lost } []
  | greets {hello : ProbeMsg} {written : Option ℕ} : s.phase = .greeting hello →
      Moves s { s with phase := afterSend written } [.greeted hello written]
  | takes {a : Server.HandleAnswers} {msgs : List ProbeMsg} {line : String} {queue : List String} :
      s.phase = .waiting ∧ msgs = [] ∨ s.phase = .draining msgs → s.queue = line :: queue →
      Moves s (s.takeLine lib a msgs line queue).1 (s.takeLine lib a msgs line queue).2
  | idles : s.phase = .waiting → Moves s { s with phase := .draining [] } []
  | drains {msgs : List ProbeMsg} : s.phase = .draining msgs →
      Moves s { s with phase := .ticking msgs } []
  | ends {lost : List UInt8} : s.phase = .waiting → s.queue = [] → s.reader = .gone lost →
      Moves s { s with phase := .ended true } []
  | passes {msgs : List ProbeMsg} {nowMs : ℕ} {a : TickAnswers} {sample : Metrics}
      {written : Option ℕ} : s.phase = .ticking msgs →
      Moves s (s.pass lib nowMs a sample written).1 (s.pass lib nowMs a sample written).2

theorem moves (s : Loop) (act : Act) : Moves lib s (s.step lib act).1 (s.step lib act).2 := by
  obtain ⟨reader, queue, server, metrics, beat, phase⟩ := s
  cases act with
  | byte b =>
    cases reader with
    | reading buf =>
      by_cases hb : b = Utf8.newline
      · simp only [step, readByte, hb, if_true]
        exact .line rfl
      · simp only [step, readByte, if_neg hb]
        exact .byte rfl hb
    | last => exact .stays
    | gone lost => exact .stays
  | eof =>
    cases reader with
    | reading buf =>
      cases buf with
      | nil => exact .closes (.inl rfl)
      | cons b buf => exact .rest rfl (List.cons_ne_nil b buf)
    | last => exact .closes (.inr ⟨rfl, rfl⟩)
    | gone lost => exact .stays
  | fails =>
    cases reader with
    | reading buf => exact .closes (.inl rfl)
    | last => exact .closes (.inr ⟨rfl, rfl⟩)
    | gone lost => exact .stays
  | greet written =>
    cases phase with
    | greeting hello => exact .greets rfl
    | _ => exact .stays
  | recv a =>
    cases phase with
    | waiting =>
      cases queue with
      | cons line queue => exact .takes (.inl ⟨rfl, rfl⟩) rfl
      | nil =>
        cases reader with
        | gone lost => exact .ends rfl rfl rfl
        | _ => exact .stays
    | draining msgs =>
      cases queue with
      | cons line queue => exact .takes (.inr rfl) rfl
      | nil => exact .drains rfl
    | _ => exact .stays
  | timeout =>
    cases phase with
    | waiting =>
      cases queue with
      | cons line queue => exact .stays
      | nil =>
        cases reader with
        | gone lost => exact .stays
        | _ => exact .idles rfl
    | _ => exact .stays
  | pass nowMs a sample written =>
    cases phase with
    | ticking msgs => exact .passes rfl
    | _ => exact .stays

end Loop

/-! ## The server's own messages -/

section Plain

variable (s : Server) (nowMs : ℕ) (a : TickAnswers)

/-- A message of the server. -/
def Plain (msg : ProbeMsg) : Prop := isChatter msg = false

theorem report_plain {code : String} (h : code ≠ "bad_message") (failing : Finset Scope)
    (scope : Scope) (message : String) :
    ∀ msg ∈ (report failing scope (.error code message)).2, Plain msg := by
  intro msg hm
  simp only [report] at hm
  split_ifs at hm
  · cases hm
  · rw [List.mem_singleton.mp hm]
    exact decide_eq_false h

theorem runCleanup_plain : ∀ msg ∈ (s.runCleanup nowMs a).2, Plain msg := by
  unfold Server.runCleanup
  split_ifs
  · split
    · exact fun _ h => (List.not_mem_nil h).elim
    · exact report_plain (by decide) _ _ _
  · exact fun _ h => (List.not_mem_nil h).elim

theorem drainSpool_plain : ∀ msg ∈ (s.drainSpool a).2, Plain msg := by
  unfold Server.drainSpool
  intro msg h
  split at h
  · split_ifs at h
    · cases h
    · rw [List.mem_singleton.mp h]
      rfl
  · rcases List.mem_append.mp h with h | h
    · split_ifs at h
      · rw [List.mem_singleton.mp h]
        rfl
      · cases h
    · refine Machine.outputs_forall (fun s entry msg hm => ?_) _ _ msg h
      obtain ⟨ev, -, rfl⟩ := Option.map_eq_some_iff.mp (Option.mem_toList.mp hm)
      rfl

theorem pollIfDue_plain : ∀ msg ∈ (s.pollIfDue nowMs a).2, Plain msg := by
  have hpoll : ∀ old panes acc session,
      ∀ msg ∈ (Server.pollSession old panes acc session).2, Plain msg := by
    intro old panes acc session
    simp only [Server.pollSession]
    split
    · split_ifs
      · exact fun _ h => (List.not_mem_nil h).elim
      · exact fun _ h => List.mem_singleton.mp h ▸ rfl
    · exact report_plain (by decide) _ _ _
  unfold Server.pollIfDue Server.pollPanes
  split_ifs
  · split
    · exact report_plain (by decide) _ _ _
    · intro msg h
      rcases List.mem_append.mp h with h | h
      · split_ifs at h
        · cases h
        · rw [List.mem_singleton.mp h]
          rfl
      · exact Machine.outputs_forall (hpoll _ _) _ _ msg h
  · exact fun _ h => (List.not_mem_nil h).elim

theorem bindScrape_plain (pane : PaneRef) (p : PaneInfo) (screen : String) :
    ∀ msg ∈ (s.bindScrape pane p screen nowMs).2.2, Plain msg := by
  intro msg h
  have hcase := s.bindCase nowMs pane p screen
  generalize s.bindScrape pane p screen nowMs = r at h hcase
  cases hcase with
  | left => exact List.mem_singleton.mp h ▸ rfl
  | bound => exact List.mem_singleton.mp h ▸ rfl
  | _ => cases h

theorem scrapeIfDue_plain (lib : ScrapeLib) : ∀ msg ∈ (s.scrapeIfDue lib nowMs a).2, Plain msg := by
  unfold Server.scrapeIfDue
  split_ifs
  · refine Machine.outputs_forall (fun s target => ?_) _ _
    obtain ⟨pane, p⟩ := target
    have hcase := s.scrapeCase lib nowMs a.dump pane p
    generalize Server.scrapePane lib a.dump nowMs s (pane, p) = r at hcase
    have hbind := fun screen =>
      bindScrape_plain { s with failing := s.failing.erase (.dump pane) } nowMs pane p screen
    cases hcase with
    | failed => exact report_plain (by decide) _ _ _
    | @unbound screen s' out _ hb => exact (congrArg (·.2.2) hb) ▸ hbind screen
    | @observed screen agent s' out _ hb =>
      intro msg h
      rcases List.mem_append.mp h with h | h
      · exact hbind screen msg (hb ▸ h)
      · obtain ⟨state, -, rfl⟩ := Option.map_eq_some_iff.mp (Option.mem_toList.mp h)
        rfl
  · exact fun _ h => (List.not_mem_nil h).elim

theorem tick_plain (lib : ScrapeLib) : ∀ msg ∈ (s.tick lib nowMs a).2, Plain msg := by
  intro msg h
  simp only [Server.tick, List.mem_append] at h
  rcases h with ((h | h) | h) | h
  · exact runCleanup_plain _ _ _ msg h
  · exact drainSpool_plain _ _ msg h
  · exact pollIfDue_plain _ _ _ msg h
  · exact scrapeIfDue_plain _ _ _ _ msg h

theorem handle_plain (lib : ScrapeLib) (b : Server.HandleAnswers) (msg : AppMsg) :
    ∀ m ∈ (s.handle lib b msg).2.2, Plain m := by
  have herr : ∀ code r, code ≠ "bad_message" → ∀ m ∈ Server.errOf code r, Plain m := by
    intro code r hcode m h
    cases r with
    | ok => cases h
    | error e =>
      rw [List.mem_singleton.mp h]
      exact decide_eq_false hcode
  have hz : ∀ m ∈ s.withZellij b.zellij, Plain m := by
    intro m h
    unfold Server.withZellij at h
    split_ifs at h
    · exact herr _ _ (by decide) m h
    · exact List.mem_singleton.mp h ▸ rfl
  cases msg with
  | ack offset => exact herr _ _ (by decide)
  | sendText => exact hz
  | focus => exact hz
  | setInterval => exact fun _ h => (List.not_mem_nil h).elim
  | setRules rules =>
    simp only [Server.handle]
    split
    · exact fun _ h => (List.not_mem_nil h).elim
    · exact fun _ h => List.mem_singleton.mp h ▸ rfl

end Plain

/-! ## What a run keeps -/

section Logs

variable (log log' : List Fact)

@[simp] theorem input_append : input (log ++ log') = input log ++ input log' :=
  List.filterMap_append

@[simp] theorem taken_append : taken (log ++ log') = taken log ++ taken log' :=
  List.filterMap_append

@[simp] theorem inputs_append : inputs (log ++ log') = inputs log ++ inputs log' :=
  List.filterMap_append

@[simp] theorem passed_append : passed (log ++ log') = passed log ++ passed log' :=
  List.flatMap_append

@[simp] theorem greeted_append : greeted (log ++ log') = greeted log ++ greeted log' :=
  List.filterMap_append

@[simp] theorem output_append : output lib (log ++ log') = output lib log ++ output lib log' :=
  List.flatMap_append

end Logs

variable {lib} {log : List Fact} {s s' : Loop} {out : List Fact} {server : Server}

/-- What the thread has sent of the input that ends in this part of a line. -/
inductive Reads : Reader → List UInt8 → List String → Prop
  | reading (left : List UInt8) : Reads (.reading left) left []
  | last {left : List UInt8} : left ≠ [] → Reads .last left [lineOf left]
  | lost (left : List UInt8) : Reads (.gone left) left []
  | done {left : List UInt8} : left ≠ [] → Reads (.gone []) left [lineOf left]

/-- The lines of the input are in the channel or were taken from it, in order. -/
def Lined (log : List Fact) (s : Loop) : Prop :=
  ∃ (lines : List (List UInt8)) (left : List UInt8) (tail : List String),
    (∀ line ∈ lines, Utf8.newline ∉ line) ∧ Utf8.newline ∉ left ∧
      input log = lines.flatMap (Lines.terminate Utf8.newline) ++ left ∧
      taken log ++ s.queue =
        lines.map (fun line => lineOf (Lines.terminate Utf8.newline line)) ++ tail ∧
      Reads s.reader left tail

theorem Loop.Moves.lined (hm : s.Moves lib s' out) (h : Lined log s) : Lined (log ++ out) s' := by
  obtain ⟨lines, left, tail, hlines, hleft, hinput, htaken, hreads⟩ := h
  cases hm with
  | stays => exact ⟨lines, left, tail, hlines, hleft, by simpa [input] using hinput,
      by simpa [taken] using htaken, hreads⟩
  | @byte _ b hr hb =>
    rw [hr] at hreads
    cases hreads
    refine ⟨lines, left ++ [b], [], hlines, ?_, ?_, ?_, .reading _⟩
    · simp [hleft, Ne.symm hb]
    · rw [input_append, hinput, List.append_assoc]
      rfl
    · simpa [taken] using htaken
  | line hr =>
    rw [hr] at hreads
    cases hreads
    refine ⟨lines ++ [left], [], [], ?_, List.not_mem_nil, ?_, ?_, .reading _⟩
    · rintro line hl
      rcases List.mem_append.mp hl with hl | hl
      · exact hlines line hl
      · exact List.mem_singleton.mp hl ▸ hleft
    · rw [input_append, hinput, List.flatMap_append]
      simp [input, Lines.terminate]
    · rw [List.append_nil] at htaken
      simp [taken, ← htaken]
  | rest hr hne =>
    rw [hr] at hreads
    cases hreads
    refine ⟨lines, left, [lineOf left], hlines, hleft, by simpa [input] using hinput, ?_, .last hne⟩
    rw [List.append_nil] at htaken
    simp [taken, ← htaken]
  | @closes lost hr =>
    refine ⟨lines, left, tail, hlines, hleft, by simpa [input] using hinput,
      by simpa [taken] using htaken, ?_⟩
    rcases hr with hr | ⟨hr, rfl⟩
    · rw [hr] at hreads
      cases hreads
      exact .lost _
    · rw [hr] at hreads
      cases hreads with
      | last hne => exact .done hne
  | @takes a msgs line queue hp hq =>
    refine ⟨lines, left, tail, hlines, hleft, ?_, ?_, hreads⟩
    · have hout : input (s.takeLine lib a msgs line queue).2 = [] := by
        cases hmsg : messageIn lib line <;> simp [Loop.takeLine, input, hmsg]
      rw [input_append, hout, List.append_nil, hinput]
    · have hout : taken (s.takeLine lib a msgs line queue).2 = [line] := by
        cases hmsg : messageIn lib line <;> simp [Loop.takeLine, taken, hmsg]
      rw [hq] at htaken
      rw [taken_append, hout, List.append_assoc]
      exact htaken
  | greets hp | idles hp | drains hp | ends hp =>
    exact ⟨lines, left, tail, hlines, hleft, by simpa [input] using hinput,
      by simpa [taken] using htaken, hreads⟩
  | passes hp =>
    refine ⟨lines, left, tail, hlines, hleft, ?_, ?_, ?_⟩
    · simpa [Loop.pass, hp, input] using hinput
    · simpa [Loop.pass, hp, taken] using htaken
    · simpa [Loop.pass, hp] using hreads

/-- The lines of the input, whole or not. -/
theorem Lined.lines (h : Lined log s) :
    taken log ++ s.queue ++ (if s.partLine = [] then [] else [lineOf s.partLine]) =
      (Lines.splitInclusive Utf8.newline (input log)).map lineOf := by
  obtain ⟨lines, left, tail, hlines, hleft, hinput, htaken, hreads⟩ := h
  rw [hinput, Lines.splitInclusive_flatMap_append hlines, List.map_append, List.map_map,
    Lines.splitInclusive_of_notMem hleft, htaken, List.append_assoc]
  refine congrArg₂ (· ++ ·) rfl ?_
  unfold Loop.partLine
  generalize s.reader = reader at hreads ⊢
  cases hreads with
  | reading left => split_ifs <;> rfl
  | last hne => simp [hne]
  | lost left => split_ifs <;> rfl
  | done hne => simp [hne]

/-- A line is blank, a message, or reported. -/
theorem handleLine_cases (s : Server) (a : Server.HandleAnswers) (line : String) :
    (messageIn lib line = none ∧ complaint lib line = none ∧ handleLine lib s a line = (s, [])) ∨
      (∃ msg, messageIn lib line = some msg ∧ complaint lib line = none ∧
        handleLine lib s a line = Server.step lib.scrape s (.app a msg)) ∨
      (messageIn lib line = none ∧ complaint lib line = some (badMessage lib line) ∧
        handleLine lib s a line = (s, [badMessage lib line])) := by
  unfold messageIn complaint handleLine
  by_cases hblank : trim line.toList = []
  · rw [if_pos hblank, if_pos hblank, if_pos hblank]
    exact .inl ⟨rfl, rfl, rfl⟩
  · rw [if_neg hblank, if_neg hblank, if_neg hblank]
    cases decodeApp lib line with
    | none => exact .inr (.inr ⟨rfl, rfl, rfl⟩)
    | some msg => exact .inr (.inl ⟨msg, rfl, rfl, rfl⟩)

theorem isBad_of_plain {msg : ProbeMsg} (h : Plain msg) : isBad msg = false := by
  cases msg with
  | error code message => exact h
  | _ => rfl

theorem filter_plain {msgs : List ProbeMsg} (h : ∀ msg ∈ msgs, Plain msg) :
    msgs.filter (!isChatter ·) = msgs ∧ msgs.filter isBad = [] := by
  constructor
  · exact List.filter_eq_self.mpr fun msg hm => by rw [h msg hm]; rfl
  · exact List.filter_eq_nil_iff.mpr fun msg hm => by rw [isBad_of_plain (h msg hm)]; decide

/-- The loop drives the server as its inputs say, and relays what it answers. -/
structure Drives (lib : RunLib) (server : Server) (log : List Fact) (s : Loop) : Prop where
  state : s.server = Machine.run (Server.step lib.scrape) server (inputs log)
  apps : (inputs log).filterMap appMsg = (taken log).filterMap (messageIn lib)
  own : (passed log ++ s.unsent).filter (!isChatter ·) =
    Machine.outputs (Server.step lib.scrape) server (inputs log)
  bad : (passed log ++ s.unsent).filter isBad = (taken log).filterMap (complaint lib)

/-- Nothing is given to the server and nothing is said. -/
theorem Drives.frame (h : Drives lib server log s) (hs : s'.server = s.server)
    (hu : s'.unsent = s.unsent) (hi : inputs out = []) (ht : taken out = [])
    (hp : passed out = []) : Drives lib server (log ++ out) s' where
  state := by rw [hs, h.state, inputs_append, hi, List.append_nil]
  apps := by rw [inputs_append, taken_append, hi, ht, List.append_nil, List.append_nil, h.apps]
  own := by
    rw [inputs_append, passed_append, hi, hp, hu, List.append_nil, List.append_nil, h.own]
  bad := by
    rw [taken_append, passed_append, ht, hp, hu, List.append_nil, List.append_nil, h.bad]

theorem afterSend_unsent (s : Loop) (written : Option ℕ) :
    Loop.unsent { s with phase := Loop.afterSend written } = [] := by
  cases written <;> rfl

theorem Drives.takes {a : Server.HandleAnswers} {msgs : List ProbeMsg} {line : String}
    {queue : List String} (h : Drives lib server log s) (hu : s.unsent = msgs) :
    Drives lib server (log ++ (s.takeLine lib a msgs line queue).2)
      (s.takeLine lib a msgs line queue).1 := by
  obtain ⟨hserver, happs, hown, hbad⟩ := h
  rw [hu] at hown hbad
  have hunsent : (s.takeLine lib a msgs line queue).1.unsent =
      msgs ++ (handleLine lib s.server a line).2 := rfl
  rcases @handleLine_cases lib s.server a line with
    ⟨hm, hc, he⟩ | ⟨msg, hm, hc, he⟩ | ⟨hm, hc, he⟩
  · have hout : (s.takeLine lib a msgs line queue).2 = [.took line] := by
      simp [Loop.takeLine, hm]
    have hmsgs : (handleLine lib s.server a line).2 = [] := by rw [he]
    rw [hout]
    constructor
    · simpa [Loop.takeLine, he, inputs] using hserver
    · simpa [inputs, taken, hm] using happs
    · rw [hunsent, hmsgs]
      simpa [inputs, passed] using hown
    · rw [hunsent, hmsgs]
      simpa [taken, passed, hc] using hbad
  · have hout : (s.takeLine lib a msgs line queue).2 = [.took line, .served (.app a msg)] := by
      simp [Loop.takeLine, hm]
    have hmsgs := congrArg Prod.snd he
    obtain ⟨hkeep, hnone⟩ := filter_plain (handle_plain s.server lib.scrape a msg)
    have hinputs : inputs (log ++ (s.takeLine lib a msgs line queue).2) =
        inputs log ++ [.app a msg] := by rw [hout, inputs_append]; rfl
    have hpassed : passed (log ++ (s.takeLine lib a msgs line queue).2) = passed log := by
      rw [hout, passed_append]
      exact List.append_nil _
    have htaken : taken (log ++ (s.takeLine lib a msgs line queue).2) = taken log ++ [line] := by
      rw [hout, taken_append]
      rfl
    constructor
    · rw [hinputs, Machine.run_concat, ← hserver]
      exact congrArg Prod.fst he
    · rw [hinputs, htaken, List.filterMap_append, List.filterMap_append, happs]
      simp [appMsg, hm]
    · rw [hpassed, hunsent, hmsgs, hinputs, Machine.outputs_concat, ← hserver, ← hown,
        ← List.append_assoc, List.filter_append]
      exact congrArg _ hkeep
    · rw [hpassed, hunsent, hmsgs, htaken, ← List.append_assoc, List.filter_append,
        List.filterMap_append, hbad]
      exact congrArg₂ (· ++ ·) rfl (hnone.trans (by simp [hc]))
  · have hout : (s.takeLine lib a msgs line queue).2 = [.took line] := by
      simp [Loop.takeLine, hm]
    have hmsgs : (handleLine lib s.server a line).2 = [badMessage lib line] := by rw [he]
    have hpassed : passed (log ++ [.took line]) = passed log := by
      rw [passed_append]
      exact List.append_nil _
    rw [hout]
    constructor
    · simpa [Loop.takeLine, he, inputs] using hserver
    · simpa [inputs, taken, hm] using happs
    · rw [hpassed, hunsent, hmsgs, ← List.append_assoc, List.filter_append, hown]
      simp [inputs, badMessage, isChatter, isBad]
    · rw [hpassed, hunsent, hmsgs, ← List.append_assoc, List.filter_append, hbad]
      simp [taken, badMessage, isBad, hc]

theorem Drives.passes {msgs : List ProbeMsg} {nowMs : ℕ} {a : TickAnswers} {sample : Metrics}
    {written : Option ℕ} (h : Drives lib server log s) (hp : s.phase = .ticking msgs) :
    Drives lib server (log ++ (s.pass lib nowMs a sample written).2)
      (s.pass lib nowMs a sample written).1 := by
  obtain ⟨hserver, happs, hown, hbad⟩ := h
  have hu : s.unsent = msgs := by rw [Loop.unsent, hp]
  rw [hu] at hown hbad
  have hout : (s.pass lib nowMs a sample written).2 =
      [.served (.tick nowMs a), .sent nowMs (s.passMsgs lib nowMs a sample msgs) written] := by
    rw [Loop.pass, hp]
  have hunsent : (s.pass lib nowMs a sample written).1.unsent = [] := by
    rw [Loop.pass, hp]
    exact afterSend_unsent s written
  have hinputs : inputs (log ++ (s.pass lib nowMs a sample written).2) =
      inputs log ++ [.tick nowMs a] := by rw [hout, inputs_append]; rfl
  have htaken : taken (log ++ (s.pass lib nowMs a sample written).2) = taken log := by
    rw [hout, taken_append]
    exact List.append_nil _
  have hpassed : passed (log ++ (s.pass lib nowMs a sample written).2) =
      passed log ++ s.passMsgs lib nowMs a sample msgs := by
    rw [hout, passed_append]
    simp [passed]
  obtain ⟨hkeep, hnone⟩ := filter_plain (tick_plain s.server nowMs a lib.scrape)
  constructor
  · rw [hinputs, Machine.run_concat, ← hserver, Loop.pass, hp]
    rfl
  · rw [hinputs, htaken, List.filterMap_append, happs]
    exact List.append_nil _
  · rw [hpassed, hunsent, hinputs, Machine.outputs_concat, ← hserver, ← hown, List.append_nil]
    simp only [Loop.passMsgs, ← List.append_assoc, List.filter_append]
    rw [hkeep]
    split_ifs <;> simp [isChatter, Server.step]
  · rw [hpassed, hunsent, htaken, ← hbad, List.append_nil]
    simp only [Loop.passMsgs, ← List.append_assoc, List.filter_append]
    rw [hnone]
    split_ifs <;> simp [isBad]

theorem Loop.Moves.drives (hm : s.Moves lib s' out) (h : Drives lib server log s) :
    Drives lib server (log ++ out) s' := by
  cases hm with
  | stays | byte | line | rest | closes => exact h.frame rfl rfl rfl rfl rfl
  | greets hp =>
    exact h.frame rfl ((afterSend_unsent _ _).trans (by rw [Loop.unsent, hp])) rfl rfl rfl
  | takes hp hq =>
    refine h.takes ?_
    rcases hp with ⟨hp, rfl⟩ | hp <;> rw [Loop.unsent, hp]
  | idles hp | drains hp | ends hp =>
    exact h.frame rfl (by simp only [Loop.unsent, hp]) rfl rfl rfl
  | passes hp => exact h.passes hp

theorem linesOf_append (msgs more : List ProbeMsg) :
    linesOf lib (msgs ++ more) = linesOf lib msgs ++ linesOf lib more := List.map_append

theorem stream_append (lines more : List String) :
    stream (lines ++ more) = stream lines ++ stream more := List.flatMap_append

variable {hello : ProbeMsg}

/-- The output after some of the passes were written. -/
def Written (lib : RunLib) (hello : ProbeMsg) (log : List Fact) : Phase → Prop
  | .greeting hello' => hello' = hello ∧ greeted log = [] ∧ passed log = [] ∧ output lib log = []
  | .ended false => greeted log = [hello] ∧
      output lib log <+: stream (linesOf lib (hello :: passed log))
  | _ => greeted log = [hello] ∧ output lib log = stream (linesOf lib (hello :: passed log))

theorem Written.frame {phase : Phase} (h : Written lib hello log phase) (hg : greeted out = [])
    (hp : passed out = []) (ho : output lib out = []) : Written lib hello (log ++ out) phase := by
  unfold Written at h ⊢
  rwa [greeted_append, passed_append, output_append, hg, hp, ho, List.append_nil, List.append_nil,
    List.append_nil]

theorem Written.send {written : Option ℕ} {msgs : List ProbeMsg}
    (hg : greeted (log ++ out) = [hello])
    (hlog : output lib log ++ stream (linesOf lib msgs) =
      stream (linesOf lib (hello :: passed (log ++ out))))
    (hout : output lib out = writeOf lib msgs written) :
    Written lib hello (log ++ out) (Loop.afterSend written) := by
  cases written with
  | none => exact ⟨hg, by rw [output_append, hout, ← hlog]; rfl⟩
  | some n =>
    refine ⟨hg, ?_⟩
    rw [output_append, hout, ← hlog]
    exact (List.prefix_append_right_inj _).mpr (List.take_prefix n _)

theorem Loop.Moves.written (hm : s.Moves lib s' out) (h : Written lib hello log s.phase) :
    Written lib hello (log ++ out) s'.phase := by
  cases hm with
  | stays | byte | line | rest | closes => exact h.frame rfl rfl rfl
  | greets hp =>
    rw [hp] at h
    obtain ⟨rfl, hg, hpassed, ho⟩ := h
    refine Written.send (by rw [greeted_append, hg]; rfl) ?_ (List.append_nil _)
    rw [ho, passed_append, hpassed]
    rfl
  | @takes a msgs line queue hp hq =>
    have hout : greeted (s.takeLine lib a msgs line queue).2 = [] ∧
        passed (s.takeLine lib a msgs line queue).2 = [] ∧
        output lib (s.takeLine lib a msgs line queue).2 = [] := by
      unfold Loop.takeLine
      cases messageIn lib line <;> exact ⟨rfl, rfl, rfl⟩
    have hsent : Written lib hello log
        (.draining (msgs ++ (handleLine lib s.server a line).2)) := by
      rcases hp with ⟨hp, -⟩ | hp <;> (rw [hp] at h; exact h)
    exact hsent.frame hout.1 hout.2.1 hout.2.2
  | idles hp | drains hp | ends hp =>
    rw [hp] at h
    exact h.frame rfl rfl rfl
  | @passes msgs nowMs a sample written hp =>
    rw [hp] at h
    obtain ⟨hg, ho⟩ := h
    simp only [Loop.pass, hp]
    refine @Written.send _ _ _ _ _ (s.passMsgs lib nowMs a sample msgs) ?_ ?_ ?_
    · rw [greeted_append, hg]
      rfl
    · have hpassed : passed (log ++ [Fact.served (.tick nowMs a),
          .sent nowMs (s.passMsgs lib nowMs a sample msgs) written]) =
          passed log ++ s.passMsgs lib nowMs a sample msgs := by
        rw [passed_append]
        simp [passed]
      rw [ho, hpassed, ← List.cons_append, linesOf_append, stream_append]
    · simp [output]

/-- The loop returns when the input has ended and no line is left. -/
def Finished (s : Loop) : Prop :=
  s.phase = .ended true → s.queue = [] ∧ ∃ lost, s.reader = .gone lost

theorem afterSend_ne (written : Option ℕ) : Loop.afterSend written ≠ .ended true := by
  cases written <;> simp [Loop.afterSend]

theorem Loop.Moves.finished (hm : s.Moves lib s' out) (h : Finished s) : Finished s' := by
  intro hend
  cases hm with
  | stays => exact h hend
  | byte hr | line hr | rest hr =>
    obtain ⟨-, lost, hlost⟩ := h hend
    cases hr.symm.trans hlost
  | closes => exact ⟨(h hend).1, _, rfl⟩
  | greets => exact (afterSend_ne _ hend).elim
  | passes hp =>
    simp only [Loop.pass, hp] at hend
    exact (afterSend_ne _ hend).elim
  | takes | idles | drains => cases hend
  | ends _ hq hr => exact ⟨hq, _, hr⟩

/-- All that a run keeps. -/
structure Inv (lib : RunLib) (server : Server) (hello : ProbeMsg) (log : List Fact) (s : Loop) :
    Prop where
  lined : Lined log s
  drives : Drives lib server log s
  written : Written lib hello log s.phase
  finished : Finished s

theorem inv_start (server : Server) (hello : ProbeMsg) :
    Inv lib server hello [] (.start server hello) where
  lined := ⟨[], [], [], nofun, List.not_mem_nil, rfl, rfl, .reading _⟩
  drives := ⟨rfl, rfl, rfl, rfl⟩
  written := ⟨rfl, rfl, rfl, rfl⟩
  finished := nofun

theorem inv_run (server : Server) (hello : ProbeMsg) (acts : List Act) :
    Inv lib server hello (Machine.outputs (Loop.step lib) (.start server hello) acts)
      (Machine.run (Loop.step lib) (.start server hello) acts) := by
  have hstep : ∀ log s act, Inv lib server hello log s →
      Inv lib server hello (log ++ (Loop.step lib s act).2) (Loop.step lib s act).1 :=
    fun log s act h =>
      have hm := s.moves lib act
      ⟨hm.lined h.lined, hm.drives h.drives, hm.written h.written, hm.finished h.finished⟩
  have hrun := Machine.history_invariant hstep (inv_start server hello) acts
  rwa [List.nil_append] at hrun

theorem Written.prefix_stream {phase : Phase} (h : Written lib hello log phase) :
    output lib log <+: stream (linesOf lib (hello :: passed log)) := by
  cases phase with
  | greeting => exact h.2.2.2 ▸ List.nil_prefix
  | ended ok =>
    cases ok with
    | false => exact h.2
    | true => exact h.2 ▸ List.prefix_rfl
  | _ => exact h.2 ▸ List.prefix_rfl

theorem Written.whole {phase : Phase} (h : Written lib hello log phase) (hg : greeted log ≠ [])
    (hend : phase ≠ .ended false) :
    output lib log = stream (linesOf lib (hello :: passed log)) := by
  cases phase with
  | greeting => exact (hg h.2.1).elim
  | ended ok =>
    cases ok with
    | false => exact (hend rfl).elim
    | true => exact h.2
  | _ => exact h.2

end MultiAi.RunLoop
