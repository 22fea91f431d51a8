import MultiAi.Library.Torn

/-! # The end of a probe's stderr

The last bytes of what a probe writes to stderr are kept as text. Each read is decoded when it
arrives, so what the text is depends on where the reads were cut.
-/

namespace MultiAi.Stderr

open Window

/-- Bytes of stderr kept. -/
def tailBytes : ℕ := 2048

/-- The bytes of a text. -/
def len (text : List Char) : ℕ := size Char.utf8Size text

/-- Whether a byte of a text begins a character, or the text ends there. -/
def isCharBoundary : List Char → ℕ → Bool
  | _, 0 => true
  | [], _ + 1 => false
  | c :: text, i + 1 => c.utf8Size ≤ i + 1 && isCharBoundary text (i + 1 - c.utf8Size)

/-- The search for a boundary, for so many bytes at most. -/
def boundary (text : List Char) : ℕ → ℕ → Option ℕ
  | 0, _ => none
  | fuel + 1, cut => if isCharBoundary text cut then some cut else boundary text fuel (cut + 1)

/-- A text without its first bytes. -/
def drain : List Char → ℕ → List Char
  | text, 0 => text
  | [], _ + 1 => []
  | c :: text, cut + 1 => drain text (cut + 1 - c.utf8Size)

structure StderrTail where
  text : List Char := []
  done : Bool := false
  deriving DecidableEq

/-- Append bytes, keeping only the last `tailBytes` bytes (cut at a character boundary). There is
no result if the search for the boundary leaves the text. -/
def push (tail : StderrTail) (bytes : List UInt8) : Option StderrTail :=
  let text := tail.text ++ Utf8.lossy bytes
  if tailBytes < len text then
    (boundary text (tailBytes + 1) (len text - tailBytes)).map
      fun cut => { tail with text := drain text cut }
  else some { tail with text := text }

def pushes (tail : StderrTail) (chunks : List (List UInt8)) : Option StderrTail :=
  chunks.foldlM push tail

/-- Stderr has ended. -/
def finish (tail : StderrTail) : StderrTail := { tail with done := true }

/-- What a read of the pipe gives; no bytes at its end. -/
inductive Read
  | bytes (bytes : List UInt8)
  | failed

/-- Push what is read until it ends. -/
def collect (tail : StderrTail) : List Read → Option StderrTail
  | [] => some tail
  | .bytes (b :: bs) :: reads => (push tail (b :: bs)).bind (collect · reads)
  | .bytes [] :: _ => some (finish tail)
  | .failed :: _ => some (finish tail)

/-- A way in which bytes are cut into chunks. -/
structure Cutting (bytes : List UInt8) where
  chunks : List (List UInt8)
  whole : chunks.flatten = bytes

/-- The text that is left of the chunks. -/
def Cutting.text {bytes : List UInt8} (cutting : Cutting bytes) : Option (List Char) :=
  (pushes {} cutting.chunks).map StderrTail.text

/-- No chunk begins inside of a character, except where nothing is to be seen of what stands up to
its end but replacement characters, as many as have room. -/
def Harmless (chunks : List (List UInt8)) : Prop :=
  ∀ front c back, Utf8.marked chunks = front ++ (c, true) :: back →
    Unseen Char.utf8Size tailBytes Utf8.replacement (front.map Prod.fst ++ [c])
      (back.map Prod.fst)

section Boundary

variable {text : List Char} {c : Char} {cut fuel n : ℕ}

theorem isCharBoundary_cons (h : c.utf8Size ≤ cut) :
    isCharBoundary (c :: text) cut = isCharBoundary text (cut - c.utf8Size) := by
  have hpos := c.utf8Size_pos
  cases cut with
  | zero => omega
  | succ cut => rw [isCharBoundary, decide_eq_true h, Bool.true_and]

theorem drain_cons (h : c.utf8Size ≤ cut) :
    drain (c :: text) cut = drain text (cut - c.utf8Size) := by
  have hpos := c.utf8Size_pos
  cases cut with
  | zero => omega
  | succ cut => rw [drain]

/-- Behind a character, the search is that of the rest. -/
theorem boundary_cons (h : c.utf8Size ≤ cut) :
    boundary (c :: text) fuel cut =
      (boundary text fuel (cut - c.utf8Size)).map (· + c.utf8Size) := by
  induction fuel generalizing cut with
  | zero => rfl
  | succ fuel ih =>
    rw [boundary, boundary, isCharBoundary_cons h, ih (by omega),
      show cut + 1 - c.utf8Size = cut - c.utf8Size + 1 by omega]
    split_ifs
    · rw [Option.map_some, Nat.sub_add_cancel h]
    · rfl

/-- Inside of a character, the search goes to its end. -/
theorem boundary_inside (hpos : 0 < cut) (h : cut ≤ c.utf8Size) (hfuel : c.utf8Size - cut < fuel) :
    boundary (c :: text) fuel cut = some c.utf8Size := by
  induction fuel generalizing cut with
  | zero => omega
  | succ fuel ih =>
    rw [boundary]
    rcases h.eq_or_lt with rfl | hlt
    · have hzero : isCharBoundary text 0 = true := by cases text <;> rfl
      rw [isCharBoundary_cons le_rfl, Nat.sub_self, hzero, if_pos rfl]
    · have hno : isCharBoundary (c :: text) cut = false := by
        cases cut with
        | zero => omega
        | succ cut => rw [isCharBoundary, decide_eq_false (by omega), Bool.false_and]
      rw [hno, if_neg Bool.false_ne_true, ih (by omega) hlt (by omega)]

/-- The search stops within the text, before the longest end that the cut leaves room for. -/
theorem boundary_stops (h : cut ≤ len text) (hfuel : len text - cut < fuel) :
    ∃ n, boundary text fuel cut = some n ∧ cut ≤ n ∧ n ≤ len text ∧
      drain text n = window Char.utf8Size (len text - cut) text := by
  induction text generalizing cut with
  | nil =>
    cases Nat.le_zero.mp h
    cases fuel with
    | zero => omega
    | succ fuel => exact ⟨0, rfl, le_rfl, le_rfl, rfl⟩
  | cons c text ih =>
    have hpos := c.utf8Size_pos
    have hlen : len (c :: text) = c.utf8Size + len text := rfl
    rcases Nat.eq_zero_or_pos cut with rfl | hcut
    · cases fuel with
      | zero => omega
      | succ fuel => exact ⟨0, rfl, le_rfl, Nat.zero_le _, (window_of_fits le_rfl).symm⟩
    have hwindow : window Char.utf8Size (len (c :: text) - cut) (c :: text) =
        window Char.utf8Size (len (c :: text) - cut) text := by
      rw [window, if_neg]
      rw [← len]
      omega
    rw [hwindow]
    rcases lt_or_ge cut c.utf8Size with hlt | hge
    · refine ⟨c.utf8Size, boundary_inside hcut hlt.le (by omega), hlt.le, by omega, ?_⟩
      rw [drain_cons le_rfl, Nat.sub_self, window_of_fits (by rw [← len]; omega)]
      cases text <;> rfl
    · obtain ⟨n, hn, hle, hlast, hdrain⟩ := @ih (cut - c.utf8Size) (by omega) (by omega)
      refine ⟨n + c.utf8Size, ?_, by omega, by omega, ?_⟩
      · rw [boundary_cons hge, hn, Option.map_some]
      · rw [drain_cons (by omega), Nat.add_sub_cancel, hdrain,
          show len text - (cut - c.utf8Size) = len (c :: text) - cut by omega]

end Boundary

variable {tail : StderrTail} {bytes : List UInt8} {chunks : List (List UInt8)}

/-- A push keeps the longest end of the text so far within the limit. -/
theorem push_eq : push tail bytes = some { tail with
    text := window Char.utf8Size tailBytes (tail.text ++ Utf8.lossy bytes) } := by
  rw [push]
  split_ifs with h
  · obtain ⟨n, hn, -, -, hdrain⟩ := @boundary_stops (tail.text ++ Utf8.lossy bytes)
      (len (tail.text ++ Utf8.lossy bytes) - tailBytes) (tailBytes + 1) (by omega) (by omega)
    rw [show len (tail.text ++ Utf8.lossy bytes) - (len (tail.text ++ Utf8.lossy bytes) - tailBytes)
      = tailBytes by omega] at hdrain
    rw [hn, Option.map_some, hdrain]
  · rw [window_of_fits (by rw [← len]; omega)]

/-- Trimming after every chunk is trimming once. -/
theorem pushes_eq (h : len tail.text ≤ tailBytes) : pushes tail chunks = some { tail with
    text := window Char.utf8Size tailBytes (tail.text ++ chunks.flatMap Utf8.lossy) } := by
  induction chunks generalizing tail with
  | nil =>
    rw [List.flatMap_nil, List.append_nil, window_of_fits h]
    rfl
  | cons chunk chunks ih =>
    rw [pushes, List.foldlM_cons, push_eq, Option.bind_eq_bind, Option.bind_some, ← pushes,
      ih (size_window_le _), window_append_window, List.append_assoc, List.flatMap_cons]

/-- Reading to the end pushes every chunk. -/
theorem collect_chunks (h : ∀ chunk ∈ chunks, chunk ≠ []) {last : Read}
    (hlast : last = .failed ∨ last = .bytes []) (rest : List Read) :
    collect tail (chunks.map .bytes ++ last :: rest) = (pushes tail chunks).map finish := by
  induction chunks generalizing tail with
  | nil => rcases hlast with rfl | rfl <;> rfl
  | cons chunk chunks ih =>
    cases chunk with
    | nil => exact absurd rfl (h [] List.mem_cons_self)
    | cons b bs =>
      have hchunks := fun chunk hc => h chunk (List.mem_cons_of_mem _ hc)
      rw [List.map_cons, List.cons_append, collect, push_eq, Option.bind_some, ih hchunks, pushes,
        pushes, List.foldlM_cons, push_eq, Option.bind_eq_bind, Option.bind_some]

theorem Cutting.text_eq (cutting : Cutting bytes) : cutting.text =
    some (window Char.utf8Size tailBytes (cutting.chunks.flatMap Utf8.lossy)) := by
  rw [Cutting.text, pushes_eq (Nat.zero_le _), Option.map_some]
  rfl

/-- Chunks leave the end of the whole decoding exactly if they are harmless. -/
theorem Cutting.text_longest_iff (cutting : Cutting bytes) :
    (∃ text, cutting.text = some text ∧
      Longest Char.utf8Size tailBytes (Utf8.lossy bytes) text) ↔ Harmless cutting.chunks := by
  have hpos : 0 < Char.utf8Size Utf8.replacement := Char.utf8Size_pos _
  have hiff := @window_shows_iff _ _ tailBytes _ _ _ hpos (Utf8.cut_marked cutting.chunks)
  rw [Utf8.map_fst_marked, cutting.whole] at hiff
  simp only [longest_iff, cutting.text_eq, Option.some_inj, exists_eq_left']
  rw [eq_comm, hiff, Harmless]

/-- Chunks of whole characters are harmless, wherever they are cut. -/
theorem harmless_of_whole (h : ∀ chunk ∈ chunks, Machine.run Utf8.step none chunk = none) :
    Harmless chunks := by
  intro front c back heq
  rw [Utf8.marked_of_whole h] at heq
  have hmem : (c, true) ∈ (Utf8.lossy chunks.flatten).map (·, false) := by
    rw [heq]
    simp
  exact absurd hmem (by simp)

/-- The search for a boundary stops within the text and every push has a result. Two ways of
cutting leave the same text, the longest end of the whole decoding within the limit, exactly if
both are harmless. -/
theorem text_iff (bytes : List UInt8) (cs ds : Cutting bytes) :
    (∀ text cut, cut ≤ len text → ∃ n, boundary text (len text - cut + 1) cut = some n ∧
      cut ≤ n ∧ n ≤ len text) ∧
    (∀ tail chunk, (push tail chunk).isSome) ∧
    ((cs.text = ds.text ∧ ∃ text, cs.text = some text ∧
        Longest Char.utf8Size tailBytes (Utf8.lossy bytes) text) ↔
      Harmless cs.chunks ∧ Harmless ds.chunks) := by
  refine ⟨fun text cut h => ?_, fun tail chunk => by rw [push_eq]; rfl, ?_⟩
  · obtain ⟨n, hn, hle, hlast, -⟩ := boundary_stops h (Nat.lt_succ_self _)
    exact ⟨n, hn, hle, hlast⟩
  rw [← cs.text_longest_iff, ← ds.text_longest_iff]
  constructor
  · rintro ⟨hsame, h⟩
    exact ⟨h, hsame ▸ h⟩
  · rintro ⟨⟨text, hc, hlongest⟩, ⟨text', hd, hlongest'⟩⟩
    rw [longest_iff] at hlongest hlongest'
    subst hlongest hlongest'
    exact ⟨hc.trans hd.symm, _, hc, longest_iff.mpr rfl⟩

/-- A character that comes in two reads is replaced byte by byte. -/
theorem not_text : ¬ ∀ bytes (cs ds : Cutting bytes), cs.text = ds.text ∧
    ∃ text, cs.text = some text ∧
      Longest Char.utf8Size tailBytes (Utf8.lossy bytes) text := by
  intro h
  exact absurd (h [0xE4, 0xB8, 0xAD] ⟨[[0xE4], [0xB8, 0xAD]], rfl⟩
    ⟨[[0xE4, 0xB8, 0xAD]], rfl⟩).1 (by decide)

end MultiAi.Stderr
