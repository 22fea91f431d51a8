import MultiAi.Host.Link
import MultiAi.Probe.RunLoop
import Mathlib.Data.List.Chain

/-! # Heartbeats and the silence timeout

The loop of a probe writes a heartbeat every few seconds. Where its passes are close to each other
and its output is not much delayed, the app's link never takes the probe to be silent.
-/

namespace MultiAi.RunLoop

open Link

/-- When the loop made its passes. -/
def passes (log : List Fact) : List ℕ := log.filterMap fun
  | .sent nowMs _ _ => some nowMs
  | _ => none

/-- The messages of the passes, and when they were written. -/
def stamped (log : List Fact) : List (ℕ × ProbeMsg) := log.flatMap fun
  | .sent nowMs msgs _ => msgs.map (nowMs, ·)
  | _ => []

/-- The times of the messages. -/
def stamps (log : List Fact) : List ℕ := (stamped log).map Prod.fst

/-- Times that do not go back, and go on by at most so much at once. -/
def Paced (most : ℕ) (times : List ℕ) : Prop := times.IsChain fun t t' => t ≤ t' ∧ t' ≤ t + most

/-- The last of some times, or the one before them. -/
def lastOf (since : ℕ) (times : List ℕ) : ℕ := times.getLast?.getD since

section Times

variable {most since t : ℕ} {times more : List ℕ}

theorem paced_append : Paced most (since :: (times ++ more)) ↔
    Paced most (since :: times) ∧ Paced most (lastOf since times :: more) := by
  unfold Paced lastOf
  induction times generalizing since with
  | nil => simp
  | cons t times ih =>
    rw [List.cons_append, List.isChain_cons_cons, ih, List.isChain_cons_cons, List.getLast?_cons,
      Option.getD_some, and_assoc (a := since ≤ t ∧ t ≤ since + most)]

theorem paced_replicate {n : ℕ} : Paced most (since :: List.replicate n t) ↔
    n = 0 ∨ since ≤ t ∧ t ≤ since + most := by
  unfold Paced
  induction n generalizing since with
  | zero => simp
  | succ n ih =>
    rw [List.replicate_succ, List.isChain_cons_cons, ih]
    simp

theorem lastOf_append : lastOf since (times ++ more) = lastOf (lastOf since times) more := by
  simp only [lastOf, List.getLast?_append]
  cases more.getLast? <;> rfl

theorem lastOf_replicate {n : ℕ} :
    lastOf since (List.replicate n t) = if n = 0 then since else t := by
  cases n with
  | zero => rfl
  | succ n => simp [lastOf, List.getLast?_replicate]

end Times

section Spacing

variable {lib : RunLib} {log out : List Fact} {s s' : Loop} {since most : ℕ}

@[simp] theorem passes_append (log log' : List Fact) :
    passes (log ++ log') = passes log ++ passes log' := List.filterMap_append

@[simp] theorem stamps_append (log log' : List Fact) :
    stamps (log ++ log') = stamps log ++ stamps log' := by
  rw [stamps, stamped, List.flatMap_append, List.map_append]
  rfl

/-- The last heartbeat is not older than the last message, nor much older than the last pass. -/
def Fresh (since : ℕ) (log : List Fact) : Option ℕ → Prop
  | none => passes log = [] ∧ stamps log = []
  | some beat => beat ≤ lastOf since (stamps log) ∧
      lastOf since (stamps log) ≤ lastOf since (passes log) ∧
      lastOf since (passes log) < beat + heartbeatMs

/-- Where the passes are close to each other, so are the messages. -/
def Beats (since most : ℕ) (log : List Fact) (s : Loop) : Prop :=
  Paced most (since :: passes log) →
    Paced (heartbeatMs + most) (since :: stamps log) ∧ Fresh since log s.lastBeat

theorem Beats.frame (h : Beats since most log s) (hs : s'.lastBeat = s.lastBeat)
    (hp : passes out = []) (hm : stamps out = []) : Beats since most (log ++ out) s' := by
  unfold Beats Fresh at h ⊢
  rwa [passes_append, stamps_append, hp, hm, List.append_nil, List.append_nil, hs]

theorem stamps_sent (i : Server.Input) (nowMs : ℕ) (msgs : List ProbeMsg) (written : Option ℕ) :
    stamps [.served i, .sent nowMs msgs written] = List.replicate msgs.length nowMs := by
  simp [stamps, stamped, Function.comp_def, List.map_const']

theorem Beats.pass {msgs : List ProbeMsg} {nowMs : ℕ} {a : TickAnswers} {sample : Metrics}
    {written : Option ℕ} (h : Beats since most log s) (hp : s.phase = .ticking msgs) :
    Beats since most (log ++ (s.pass lib nowMs a sample written).2)
      (s.pass lib nowMs a sample written).1 := by
  intro hpaced
  have hout : (s.pass lib nowMs a sample written).2 =
      [.served (.tick nowMs a), .sent nowMs (s.passMsgs lib nowMs a sample msgs) written] := by
    rw [Loop.pass, hp]
  have hlast : (s.pass lib nowMs a sample written).1.lastBeat =
      if due s.lastBeat heartbeatMs nowMs then some nowMs else s.lastBeat := by
    rw [Loop.pass, hp]
  rw [hout] at hpaced ⊢
  rw [hlast]
  have hnow : passes [.served (.tick nowMs a),
      .sent nowMs (s.passMsgs lib nowMs a sample msgs) written] = [nowMs] := rfl
  rw [passes_append, hnow, paced_append] at hpaced
  obtain ⟨hbefore, hgap⟩ := hpaced
  obtain ⟨hspaced, hfresh⟩ := h hbefore
  simp only [Paced, List.isChain_cons_cons, List.isChain_singleton, and_true] at hgap
  unfold Fresh
  rw [passes_append, hnow, stamps_append, stamps_sent, paced_append, paced_replicate, lastOf_append,
    lastOf_replicate, lastOf_append]
  have hpass : lastOf (lastOf since (passes log)) [nowMs] = nowMs := rfl
  rw [hpass]
  by_cases hdue : due s.lastBeat heartbeatMs nowMs = true
  · -- A heartbeat is among the messages.
    have hlen : (s.passMsgs lib nowMs a sample msgs).length ≠ 0 := by
      simp [Loop.passMsgs, hdue]
    simp only [hdue, if_true, if_neg hlen]
    refine ⟨⟨hspaced, .inr ?_⟩, Nat.le_refl _, Nat.le_refl _, by rw [heartbeatMs]; omega⟩
    cases hb : s.lastBeat with
    | none =>
      rw [hb] at hfresh
      rw [hfresh.2]
      rw [hfresh.1] at hgap
      exact ⟨hgap.1, by have := hgap.2; omega⟩
    | some beat =>
      rw [hb] at hfresh
      obtain ⟨h₁, h₂, h₃⟩ := hfresh
      omega
  · obtain ⟨beat, hb⟩ : ∃ beat, s.lastBeat = some beat := by
      cases hb : s.lastBeat with
      | none => simp [due, hb] at hdue
      | some beat => exact ⟨beat, rfl⟩
    have hrecent : ¬heartbeatMs ≤ nowMs - beat := by simpa [due, hb] using hdue
    rw [hb] at hfresh ⊢
    obtain ⟨h₁, h₂, h₃⟩ := hfresh
    rw [if_neg (hb ▸ hdue)]
    refine ⟨⟨hspaced, ?_⟩, ?_⟩
    · by_cases hlen : (s.passMsgs lib nowMs a sample msgs).length = 0
      · exact .inl hlen
      · exact .inr ⟨by omega, by omega⟩
    · simp only
      split_ifs with hlen <;> omega

theorem beats_run (server : Server) (hello : ProbeMsg) (acts : List Act) :
    Beats since most (Machine.outputs (Loop.step lib) (.start server hello) acts)
      (Machine.run (Loop.step lib) (.start server hello) acts) := by
  have hstart : Beats since most [] (Loop.start server hello) :=
    fun _ => ⟨.singleton since, rfl, rfl⟩
  suffices hstep : ∀ log s act, Beats since most log s →
      Beats since most (log ++ (Loop.step lib s act).2) (Loop.step lib s act).1 by
    have hrun := Machine.history_invariant hstep hstart acts
    rwa [List.nil_append] at hrun
  intro log s act h
  have hm := s.moves lib act
  generalize (s.step lib act).1 = s', (s.step lib act).2 = out at hm
  cases hm with
  | stays | byte | line | rest | closes | greets | idles | drains | ends =>
    exact h.frame rfl rfl rfl
  | @takes a msgs line queue =>
    refine h.frame rfl ?_ ?_ <;> (unfold Loop.takeLine; cases messageIn lib line <;> rfl)
  | passes hp => exact h.pass hp

end Spacing

/-! ## What the app receives -/

/-- A line is there not much later than it was written. The probe's clock is ahead of the app's. -/
structure Arrives (ahead delay t : ℕ) (line : TimedLine) : Prop where
  bytes : ∀ x ∈ line.bytes, x.1 + ahead ≤ t + delay
  ending : line.ending + ahead ≤ t + delay
  sent : t ≤ line.ending + ahead

section Arrival

variable {link : LinkLib} {ahead delay most t now : ℕ} {times waits : List ℕ}
  {line : TimedLine} {lines : List TimedLine} {rest : List (ℕ × Arrival)} {msg : ProbeMsg}
  {msgs : List ProbeMsg}

theorem timely (hdelay : heartbeatMs + most + delay ≤ silenceTimeout)
    (hpaced : Paced (heartbeatMs + most) (t :: times))
    (hlines : List.Forall₂ (Arrives ahead delay) times lines)
    (hlen : waits.length = lines.length) (hnow : t ≤ now + ahead) :
    Timely now (waits.zip lines) := by
  induction hlines generalizing waits t now with
  | nil => simp [Timely]
  | @cons t' line times lines ha _ ih =>
    obtain ⟨wait, waits, rfl⟩ := List.exists_cons_of_length_eq_add_one hlen
    obtain ⟨⟨hle, hgap⟩, hpaced⟩ := List.isChain_cons_cons.mp hpaced
    refine ⟨⟨fun x hx => ?_, ?_⟩, ih hpaced (Nat.succ.inj hlen) ?_⟩
    · have := ha.bytes x hx
      omega
    · have := ha.ending
      omega
    · have hread : line.ending ≤ line.readAt (now + wait) := Nat.le_max_right ..
      exact Nat.le_trans ha.sent (Nat.add_le_add_right hread _)

/-- The line holds the message. -/
def Carries (link : LinkLib) (line : TimedLine) (msg : ProbeMsg) : Prop :=
  line.bytes.map Prod.snd = Utf8.encode (link.codec.print (msg.encode link.codec)).toList

theorem raw_carries (h : Carries link line msg) :
    line.raw = Utf8.encode (encodeLine link.codec (ProbeMsg.encode link.codec) msg).toList := by
  rw [TimedLine.raw, h, encodeLine, String.toList_append, Utf8.encode_append]
  rfl

theorem textOf_carries (hp : link.codec.Faithful (msg.encode link.codec))
    (h : Carries link line msg) :
    textOf line.raw = some (link.codec.print (msg.encode link.codec)) := by
  rw [textOf, raw_carries h, Utf8.decode?_encode, Option.map_some, encodeLine, String.toList_append]
  have hno : (link.codec.print (msg.encode link.codec)).toList.getLast? ≠ some '\r' := by
    intro hlast
    exact absurd (hp.noControl _ (List.mem_of_getLast? hlast)) (by decide)
  change some (String.ofList (Lines.chomp '\n' '\r' (Lines.terminate '\n' _))) = _
  rw [Lines.chomp, Lines.getLast?_terminate, if_pos rfl, Lines.dropLast_terminate,
    Lines.dropCr_eq_self.mpr hno, String.ofList_toList]

theorem decodeMsg_carries (hp : link.codec.Faithful (msg.encode link.codec))
    (hd : ProbeMsg.decode link.codec (msg.encode link.codec) = some msg) :
    decodeMsg link (link.codec.print (msg.encode link.codec)) = some msg := by
  have htrim : trimEnd _ = _ := trimEnd_append hp.noControl (List.forall_mem_nil _)
  rw [List.append_nil] at htrim
  rw [decodeMsg, decodeLine, htrim, String.ofList_toList, hp.parse_print, Option.bind_some, hd]

/-- Lines with these bytes hold these messages. -/
theorem carries_of_wire {lib : RunLib} (hcodec : lib.codec = link.codec)
    (hp : ∀ msg ∈ msgs, link.codec.Faithful (msg.encode link.codec))
    (hwire : lines.flatMap TimedLine.raw = stream (linesOf lib msgs)) :
    List.Forall₂ (Carries link) lines msgs := by
  have hleft : lines.flatMap TimedLine.raw =
      (lines.map fun line => line.bytes.map Prod.snd).flatMap (Lines.terminate Utf8.newline) := by
    rw [List.flatMap_map]
    rfl
  have hright : stream (linesOf lib msgs) =
      (msgs.map fun msg => Utf8.encode (link.codec.print (msg.encode link.codec)).toList).flatMap
        (Lines.terminate Utf8.newline) := by
    rw [stream, linesOf, List.flatMap_map, List.flatMap_map, hcodec]
    refine congrArg (List.flatMap · msgs) (funext fun msg => ?_)
    rw [encodeLine, String.toList_append, Utf8.encode_append]
    rfl
  rw [hleft, hright, Lines.flatMap_terminate_inj] at hwire
  · rw [← List.forall₂_eq_eq_eq, List.forall₂_map_left_iff, List.forall₂_map_right_iff] at hwire
    exact hwire
  · exact List.forall_mem_map.mpr fun line _ => line.noNewline
  · exact List.forall_mem_map.mpr fun msg hm =>
      Utf8.newline_notMem_encode (hp msg hm).newline_notMem

/-- The app receives the messages in lines that are there in time. -/
theorem recvs_carries
    (hd : ∀ msg ∈ msgs, ProbeMsg.decode link.codec (msg.encode link.codec) = some msg)
    (hp : ∀ msg ∈ msgs, link.codec.Faithful (msg.encode link.codec))
    (hlines : List.Forall₂ (Carries link) lines msgs) (hlen : waits.length = lines.length)
    (htime : Timely now (waits.zip lines)) :
    recvs link (upcoming now lines rest) waits = msgs.map .ok := by
  induction hlines generalizing waits now with
  | nil =>
    rw [List.length_eq_zero_iff.mp hlen]
    rfl
  | @cons line msg lines msgs hc _ ih =>
    obtain ⟨wait, waits, rfl⟩ := List.exists_cons_of_length_eq_add_one hlen
    obtain ⟨hmsg, hmsgs⟩ := List.forall_mem_cons.mp hp
    obtain ⟨hread, hreads⟩ := List.forall_mem_cons.mp hd
    obtain ⟨hin, htime⟩ := htime
    rw [recvs, later_upcoming, recv_upcoming hin, textOf_carries hmsg hc, Option.elim_some,
      decodeMsg_carries hmsg hread, ih hreads hmsgs (Nat.succ.inj hlen) htime]
    rfl

/-- The hello is taken from its line. -/
theorem hello_carries {info : HelloInfo} (hversion : info.protocolVersion = protocolVersion)
    (hd : ProbeMsg.decode link.codec ((helloMsg info).encode link.codec) = some (helloMsg info))
    (hp : link.codec.Faithful ((helloMsg info).encode link.codec))
    (hc : Carries link line (helloMsg info)) (hin : line.InTime (now + helloTimeout)) :
    Link.hello link (upcoming now (line :: lines) rest) =
      (.ok info, upcoming (line.readAt now) lines rest) := by
  have hnext : nextLine link _ _ = (_, upcoming _ lines rest) := nextLine_upcoming hin
  have hmsg := decodeMsg_carries hp hd
  rw [textOf_carries hp hc, Option.elim_some] at hnext
  rw [Link.hello, greet.eq_def]
  simp only [now_upcoming, Nat.add_sub_cancel_left, hnext]
  rw [hmsg]
  exact if_neg fun hne => hne hversion

end Arrival

/-- While the passes of a probe's loop are close to each other and its output is not held up, the
app gets the hello and then every message of the loop, in order, and never takes the probe to be
silent, whatever else the two threads of the loop do. -/
theorem never_silent (link : LinkLib) (scrape : ScrapeLib) (problem : String → String)
    (server : Server) (info : HelloInfo) (acts : List Act) (since most delay ahead now : ℕ)
    (line : TimedLine) (lines : List TimedLine) (rest : List (ℕ × Arrival)) (waits : List ℕ)
    (hversion : info.protocolVersion = protocolVersion)
    (hfloat : ∀ x, FiniteF32 x → link.codec.readF32 (link.codec.printF32 x) = some x) :
    let lib : RunLib := ⟨link.codec, scrape, problem⟩
    let s := Machine.run (Loop.step lib) (.start server (helloMsg info)) acts
    let log := Machine.outputs (Loop.step lib) (.start server (helloMsg info)) acts
    (∀ msg ∈ helloMsg info :: passed log, msg.Fits ∧ link.codec.Faithful (msg.encode link.codec)) →
    greeted log ≠ [] → s.phase ≠ .ended false →
    (line :: lines).flatMap TimedLine.raw = output lib log →
    Paced most (since :: passes log) → heartbeatMs + most + delay ≤ silenceTimeout →
    Arrives ahead delay since line → List.Forall₂ (Arrives ahead delay) (stamps log) lines →
    line.InTime (now + helloTimeout) → waits.length = lines.length →
    (Link.hello link (upcoming now (line :: lines) rest)).1 = .ok info ∧
      recvs link (Link.hello link (upcoming now (line :: lines) rest)).2 waits =
        (passed log).map .ok := by
  intro lib s log hmsgs hgreeted hphase hwire hpaced hdelay hfirst harrive hin hlen
  have hinv := @inv_run lib server (helloMsg info) acts
  have hd : ∀ msg ∈ helloMsg info :: passed log,
      ProbeMsg.decode link.codec (msg.encode link.codec) = some msg :=
    fun msg hm => ProbeMsg.decode_encode hfloat (hmsgs msg hm).1
  rw [hinv.written.whole hgreeted hphase] at hwire
  have hcarry := @carries_of_wire link _ _ lib rfl (fun msg hm => (hmsgs msg hm).2) hwire
  obtain ⟨hline, hlines⟩ := List.forall₂_cons.mp hcarry
  have hhello := @hello_carries link now line lines rest info hversion (hd _ List.mem_cons_self)
    (hmsgs _ List.mem_cons_self).2 hline hin
  rw [hhello]
  refine ⟨rfl, recvs_carries (fun msg hm => hd msg (List.mem_cons_of_mem _ hm))
    (fun msg hm => (hmsgs msg (List.mem_cons_of_mem _ hm)).2) hlines hlen ?_⟩
  have hspaced := (@beats_run lib since most server (helloMsg info) acts hpaced).1
  refine timely hdelay hspaced harrive hlen ?_
  exact Nat.le_trans hfirst.sent (Nat.add_le_add_right (Nat.le_max_right ..) _)

/-- A line whose bytes are there at once. -/
def lineAt (t : ℕ) (text : String) (h : '\n' ∉ text.toList) : TimedLine where
  bytes := (Utf8.encode text.toList).map (t, ·)
  ending := t
  noNewline := by simpa [Function.comp_def] using Utf8.newline_notMem_encode h

def sampleInfo : HelloInfo := ⟨1, "0.1.0", "linux", "x86_64", none, none⟩

def sampleMetrics : Metrics := ⟨0, 1, 2, 0, 0, 0, 0, none, 9⟩

def helloText : String :=
  "\x7b\"type\":\"hello\",\"protocol_version\":1,\"probe_version\":\"0.1.0\",\"os\":\"linux\"," ++
    "\"arch\":\"x86_64\",\"zellij_path\":null,\"zellij_version\":null\x7d"

def metricsText : String :=
  "\x7b\"type\":\"metrics\",\"cpu_pct\":0.0,\"mem_used\":1,\"mem_total\":2,\"disk_read_bps\":0," ++
    "\"disk_write_bps\":0,\"net_rx_bps\":0,\"net_tx_bps\":0,\"ts_ms\":9\x7d"

def beatText : String := "\x7b\"type\":\"heartbeat\",\"ts_ms\":9\x7d"

/-- A library that knows these texts. -/
def beatCodec : JsonCodec where
  print
    | .obj (("type", .str "hello") :: _) => helloText
    | .obj (("type", .str "metrics") :: _) => metricsText
    | .obj (("type", .str "heartbeat") :: _) => beatText
    | _ => "null"
  parse text :=
    if text = helloText then
      some (withTag "hello" [("protocol_version", .ofNat 1), ("probe_version", .str "0.1.0"),
        ("os", .str "linux"), ("arch", .str "x86_64"), ("zellij_path", .null),
        ("zellij_version", .null)])
    else if text = metricsText then
      some (withTag "metrics" [("cpu_pct", .num "0.0"), ("mem_used", .ofNat 1),
        ("mem_total", .ofNat 2), ("disk_read_bps", .ofNat 0), ("disk_write_bps", .ofNat 0),
        ("net_rx_bps", .ofNat 0), ("net_tx_bps", .ofNat 0), ("ts_ms", .ofNat 9)])
    else if text = beatText then some (withTag "heartbeat" [("ts_ms", .ofNat 9)])
    else none
  printF32 x := if x = 0 then "0.0" else toString x.toNat
  readF32 text := if text = "0.0" then some 0 else (Json.readNat text.toList).map (BitVec.ofNat 32)

theorem beatCodec_readF32 (x : BitVec 32) :
    beatCodec.readF32 (beatCodec.printF32 x) = some x := by
  simp only [beatCodec]
  by_cases hx : x = 0
  · simp [hx]
  · have hread := Json.readNat_toString x.toNat
    have hne : toString x.toNat ≠ "0.0" := by
      intro heq
      rw [heq, show Json.readNat "0.0".toList = none by decide] at hread
      cases hread
    rw [if_neg hx, if_neg hne, hread, Option.map_some, BitVec.ofNat_toNat, BitVec.setWidth_eq]

def beatLink : LinkLib := ⟨beatCodec, id, "", fun _ => ""⟩

def beatScrape : ScrapeLib := ⟨fun _ => .error "", String.length⟩

def quiet : TickAnswers where
  cleanup := .ok 0
  read := .ok ⟨[], 0, 0⟩
  sessions := .ok []
  panes _ := .ok []
  dump _ := .error ""

/-- The hello, and a pass with nothing to tell. -/
def beatActs : List Act :=
  [.greet none, .timeout, .recv ⟨.ok (), .ok ()⟩, .pass 9 quiet sampleMetrics none]

/-- The texts have no control characters. -/
theorem texts_printable : ∀ text ∈ [helloText, metricsText, beatText],
    text.toList.all (fun c => decide (32 ≤ c.toNat)) = true := by
  decide +kernel

theorem newline_notMem_text {text : String} (h : text ∈ [helloText, metricsText, beatText]) :
    '\n' ∉ text.toList :=
  fun hn => absurd (List.all_eq_true.mp (texts_printable text h) _ hn) (by decide)

/-- The line of one of the texts. -/
def textAt (t : ℕ) (text : String) (h : text ∈ [helloText, metricsText, beatText] := by simp) :
    TimedLine := lineAt t text (newline_notMem_text h)

def beatLines : List TimedLine := [textAt 9 metricsText, textAt 9 beatText]

theorem beat_log : Machine.outputs (Loop.step ⟨beatCodec, beatScrape, id⟩)
    (.start (.new false 0 ⟨[]⟩) (helloMsg sampleInfo)) beatActs =
      [.greeted (helloMsg sampleInfo) none, .served (.tick 9 quiet),
        .sent 9 [.metrics sampleMetrics, .heartbeat 9] none] := by
  rfl

theorem arrives_lineAt (t : ℕ) (text : String) (h : '\n' ∉ text.toList) :
    Arrives 0 0 t (lineAt t text h) where
  bytes x hx := by
    obtain ⟨b, -, rfl⟩ := List.mem_map.mp hx
    exact Nat.le_refl _
  ending := Nat.le_refl _
  sent := Nat.le_refl _

theorem raw_lineAt (t : ℕ) (text : String) (h : '\n' ∉ text.toList) :
    (lineAt t text h).raw = Utf8.encode (text ++ "\n").toList := by
  rw [TimedLine.raw, lineAt, List.map_map, String.toList_append, Utf8.encode_append]
  simp [Function.comp_def]
  rfl

theorem never_silent_beat :
    (Link.hello beatLink (upcoming 0 (textAt 5 helloText :: beatLines) [])).1 = .ok sampleInfo ∧
      recvs beatLink (Link.hello beatLink (upcoming 0 (textAt 5 helloText :: beatLines) [])).2
        [0, 0] = [.ok (.metrics sampleMetrics), .ok (.heartbeat 9)] := by
  have hmsgs : ∀ msg ∈ [helloMsg sampleInfo, .metrics sampleMetrics, .heartbeat 9],
      msg.Fits ∧ beatCodec.Faithful (msg.encode beatCodec) := by
    simp only [List.forall_mem_cons, List.not_mem_nil, false_imp_iff, forall_true_iff, and_true]
    refine ⟨⟨?_, ?_⟩, ⟨?_, ?_⟩, ?_, ?_⟩
    · exact (by decide : 1 < u32)
    · exact JsonCodec.faithful_of_all (texts_printable helloText (by simp)) (by decide +kernel)
    · exact ⟨by decide, by decide, nofun⟩
    · exact JsonCodec.faithful_of_all (texts_printable metricsText (by simp)) (by decide +kernel)
    · exact (by decide : 9 < u64)
    · exact JsonCodec.faithful_of_all (texts_printable beatText (by simp)) (by decide +kernel)
  have h := never_silent beatLink beatScrape id (.new false 0 ⟨[]⟩) sampleInfo beatActs 5 4 0 0 0
    (textAt 5 helloText) beatLines [] [0, 0] rfl (fun x _ => beatCodec_readF32 x)
  simp only [beatLink] at h
  rw [beat_log] at h
  refine h hmsgs ?_ ?_ ?_ ?_ ?_ ?_ ?_ ?_ rfl
  · exact List.cons_ne_nil _ _
  · exact Phase.noConfusion
  · have hhello : beatCodec.print ((helloMsg sampleInfo).encode beatCodec) = helloText := rfl
    have hmetrics : beatCodec.print (ProbeMsg.encode beatCodec (.metrics sampleMetrics)) =
        metricsText := rfl
    have hbeat : beatCodec.print (ProbeMsg.encode beatCodec (.heartbeat 9)) = beatText := rfl
    simp only [beatLines, textAt, List.flatMap_cons, List.flatMap_nil, raw_lineAt, output, writeOf,
      stream, linesOf, List.map_cons, List.map_nil, encodeLine, hhello, hmetrics, hbeat,
      List.append_nil, List.nil_append]
  · exact .cons_cons (by decide) (.singleton 9)
  · decide
  · exact arrives_lineAt 5 helloText _
  · exact .cons (arrives_lineAt 9 metricsText _) (.cons (arrives_lineAt 9 beatText _) .nil)
  · exact ⟨fun x hx => Nat.le_trans ((arrives_lineAt 5 helloText _).bytes x hx) (by decide),
      by decide⟩

end MultiAi.RunLoop
