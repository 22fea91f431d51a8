import MultiAi.Library.Utf8
import MultiAi.Protocol.Wire

/-! # Messages in a stream of lines

A message is one line of JSON. A reader splits the bytes at newlines and reads each piece.
-/

namespace MultiAi

section Lines

variable {α : Type} (codec : JsonCodec)

/-- A message as one JSON line. -/
def encodeLine (encode : α → Json) (msg : α) : String := codec.print (encode msg) ++ "\n"

/-- Without the `\r` and `\n` at its end. -/
def trimEnd (line : List Char) : List Char :=
  (line.reverse.dropWhile fun c => c = '\r' ∨ c = '\n').reverse

/-- Read one line. -/
def decodeLine (decode : Json → Option α) (line : String) : Option α :=
  (codec.parse (String.ofList (trimEnd line.toList))).bind decode

/-- The bytes of some lines. -/
def stream (lines : List String) : List UInt8 := lines.flatMap fun line => Utf8.encode line.toList

/-- What a reader gets from each line. -/
def received (decode : Json → Option α) (bytes : List UInt8) : List (Option α) :=
  (Lines.splitInclusive Utf8.newline bytes).map fun piece =>
    (Utf8.decode? piece).bind (decodeLine codec decode)

/-- A line that ends like those of other systems. -/
def withCr (line : String) : String := String.ofList (line.toList.dropLast ++ ['\r', '\n'])

variable {codec} {encode : α → Json} {decode : Json → Option α}

theorem trimEnd_append {text : List Char} (h : ∀ c ∈ text, 32 ≤ c.toNat) {ending : List Char}
    (he : ∀ c ∈ ending, c = '\r' ∨ c = '\n') : trimEnd (text ++ ending) = text := by
  have hend : ∀ c ∈ ending.reverse, decide (c = '\r' ∨ c = '\n') = true := by
    simpa using he
  have htext : text.reverse.dropWhile (fun c => decide (c = '\r' ∨ c = '\n')) = text.reverse := by
    cases hr : text.reverse with
    | nil => rfl
    | cons c cs =>
      have hc : ¬ (c = '\r' ∨ c = '\n') := by
        have hlarge := h c (List.mem_reverse.mp (hr ▸ List.mem_cons_self))
        rintro (rfl | rfl) <;> exact absurd hlarge (by decide)
      rw [List.dropWhile_cons_of_neg (by simpa using hc)]
  rw [trimEnd, List.reverse_append, List.dropWhile_append_of_pos hend, htext, List.reverse_reverse]

/-- A text with a newline at its end and no other. -/
def OneLine (line : String) : Prop := ∃ body, '\n' ∉ body ∧ line.toList = body ++ ['\n']

/-- The lines of a stream are read one by one. -/
theorem received_stream {lines : List String} (h : ∀ line ∈ lines, OneLine line) :
    received codec decode (stream lines) = lines.map (decodeLine codec decode) := by
  induction lines with
  | nil => rfl
  | cons line lines ih =>
    obtain ⟨⟨body, hbody, hline⟩, hrest⟩ := List.forall_mem_cons.mp h
    have hbytes : Utf8.encode line.toList = Lines.terminate Utf8.newline (Utf8.encode body) := by
      rw [hline, Utf8.encode_append, Utf8.encode_newline, Lines.terminate]
    have hsplit : Lines.splitInclusive Utf8.newline (stream (line :: lines)) =
        Utf8.encode line.toList :: Lines.splitInclusive Utf8.newline (stream lines) := by
      rw [stream, List.flatMap_cons, hbytes,
        Lines.splitInclusive_terminate_append (Utf8.newline_notMem_encode hbody), stream]
    rw [received, hsplit, List.map_cons, List.map_cons, Utf8.decode?_encode, Option.bind_some,
      ← received, ih hrest]

section Faithful

variable {msg : α} (hp : codec.Faithful (encode msg))

include hp

theorem JsonCodec.Faithful.newline_notMem : '\n' ∉ (codec.print (encode msg)).toList :=
  fun h => absurd (hp.noControl _ h) (by decide)

theorem oneLine_encodeLine : OneLine (encodeLine codec encode msg) :=
  ⟨_, hp.newline_notMem, by rw [encodeLine, String.toList_append]; rfl⟩

theorem oneLine_withCr : OneLine (withCr (encodeLine codec encode msg)) := by
  refine ⟨(codec.print (encode msg)).toList ++ ['\r'], ?_, ?_⟩
  · simpa using hp.newline_notMem
  · simp [withCr, encodeLine]

theorem decodeLine_encodeLine : decodeLine codec decode (encodeLine codec encode msg) =
    decode (encode msg) := by
  rw [decodeLine, encodeLine, String.toList_append, trimEnd_append hp.noControl (by simp),
    String.ofList_toList, hp.parse_print, Option.bind_some]

theorem decodeLine_withCr : decodeLine codec decode (withCr (encodeLine codec encode msg)) =
    decode (encode msg) := by
  have hline : (withCr (encodeLine codec encode msg)).toList =
      (codec.print (encode msg)).toList ++ ['\r', '\n'] := by
    simp [withCr, encodeLine]
  rw [decodeLine, hline, trimEnd_append hp.noControl (by simp), String.ofList_toList,
    hp.parse_print, Option.bind_some]

end Faithful

/-- Messages that are read back one by one are read back from a stream of lines. -/
theorem received_encodeLines {msgs : List α} (hd : ∀ msg ∈ msgs, decode (encode msg) = some msg)
    (hp : ∀ msg ∈ msgs, codec.Faithful (encode msg)) :
    received codec decode (stream (msgs.map (encodeLine codec encode))) = msgs.map some ∧
      received codec decode (stream (msgs.map fun msg => withCr (encodeLine codec encode msg))) =
        msgs.map some := by
  constructor
  · rw [received_stream (List.forall_mem_map.mpr fun msg hm => oneLine_encodeLine (hp msg hm)),
      List.map_map]
    exact List.map_congr_left fun msg hm => (decodeLine_encodeLine (hp msg hm)).trans (hd msg hm)
  · rw [received_stream (List.forall_mem_map.mpr fun msg hm => oneLine_withCr (hp msg hm)),
      List.map_map]
    exact List.map_congr_left fun msg hm => (decodeLine_withCr (hp msg hm)).trans (hd msg hm)

end Lines

/-- Both directions of the connection read back what was written, one message a line, also
where the lines end with a carriage return. -/
theorem stream_roundTrip (codec : JsonCodec)
    (hfloat : ∀ x, FiniteF32 x → codec.readF32 (codec.printF32 x) = some x)
    (probe : List ProbeMsg) (app : List AppMsg) (hprobe : ∀ msg ∈ probe, msg.Fits)
    (happ : ∀ msg ∈ app, msg.Fits) (hp : ∀ msg ∈ probe, codec.Faithful (msg.encode codec))
    (ha : ∀ msg ∈ app, codec.Faithful msg.encode) :
    (received codec (ProbeMsg.decode codec)
        (stream (probe.map (encodeLine codec (ProbeMsg.encode codec)))) = probe.map some ∧
      received codec (ProbeMsg.decode codec) (stream (probe.map fun msg =>
        withCr (encodeLine codec (ProbeMsg.encode codec) msg))) = probe.map some) ∧
    received codec AppMsg.decode (stream (app.map (encodeLine codec AppMsg.encode))) =
        app.map some ∧
      received codec AppMsg.decode
        (stream (app.map fun msg => withCr (encodeLine codec AppMsg.encode msg))) =
          app.map some :=
  ⟨received_encodeLines (fun msg hm => ProbeMsg.decode_encode hfloat (hprobe msg hm)) hp,
    received_encodeLines (fun msg hm => AppMsg.decode_encode (happ msg hm)) ha⟩

/-- A codec that knows the text of a heartbeat and of a text with a line break. -/
def sampleCodec : JsonCodec where
  print
    | .obj (("type", .str "heartbeat") :: _) =>
      "\x7b\x22type\x22:\x22heartbeat\x22,\x22ts_ms\x22:9\x7d"
    | .obj _ => "\x7b\x22type\x22:\x22send_text\x22,\x22session\x22:\x22s\x22,\x22pane_id\x22:1," ++
        "\x22text\x22:\x22a\\nb\x22\x7d"
    | _ => "null"
  parse text :=
    if text = "\x7b\x22type\x22:\x22heartbeat\x22,\x22ts_ms\x22:9\x7d" then
      some (withTag "heartbeat" [("ts_ms", .ofNat 9)])
    else some (AppMsg.encode (.sendText "s" 1 "a\nb"))
  printF32 x := toString x.toNat
  readF32 text := (Json.readNat text.toList).map (BitVec.ofNat 32)

theorem stream_roundTrip_sample :
    received sampleCodec (ProbeMsg.decode sampleCodec)
        (stream ([.heartbeat 9].map (encodeLine sampleCodec (ProbeMsg.encode sampleCodec)))) =
          [some (.heartbeat 9)] ∧
      received sampleCodec AppMsg.decode (stream ([.sendText "s" 1 "a\nb"].map fun msg =>
        withCr (encodeLine sampleCodec AppMsg.encode msg))) = [some (.sendText "s" 1 "a\nb")] := by
  have hfloat : ∀ x, FiniteF32 x → sampleCodec.readF32 (sampleCodec.printF32 x) = some x := by
    intro x _
    have hread : sampleCodec.readF32 (sampleCodec.printF32 x) = some (BitVec.ofNat 32 x.toNat) :=
      congrArg (Option.map (BitVec.ofNat 32)) (Json.readNat_toString x.toNat)
    rw [hread, BitVec.ofNat_toNat, BitVec.setWidth_eq]
  have hp : sampleCodec.Faithful (ProbeMsg.encode sampleCodec (.heartbeat 9)) :=
    JsonCodec.faithful_of_all (by decide +kernel) (by simp [sampleCodec, ProbeMsg.encode, withTag])
  have ha : sampleCodec.Faithful (AppMsg.encode (.sendText "s" 1 "a\nb")) :=
    JsonCodec.faithful_of_all (by decide +kernel) (by simp [sampleCodec, AppMsg.encode, withTag])
  have h := stream_roundTrip sampleCodec hfloat [.heartbeat 9] [.sendText "s" 1 "a\nb"]
    (List.forall_mem_singleton.mpr (by decide : 9 < u64))
    (List.forall_mem_singleton.mpr (by decide : 1 < u32)) (List.forall_mem_singleton.mpr hp)
    (List.forall_mem_singleton.mpr ha)
  exact ⟨h.1.1, h.2.2⟩

end MultiAi
