import MultiAi.Library.Lines
import MultiAi.Probe.HookMap
import Mathlib.Algebra.Group.Nat.Defs
import Mathlib.Data.List.Induction

/-! # Spool

An append-only log of hook records in one file for each day. A cursor names a
day and the offset just past a record of its file.
-/

namespace MultiAi.Spool

open Std

def dayMs : ℕ := 86400000

/-- How long after midnight (UTC) a new day's file is left unread. -/
def dayGraceMs : ℕ := 10000

def offsetBits : ℕ := 40

def offsetMask : ℕ := (1 <<< offsetBits) - 1

def makeCursor (day endOffset : ℕ) : ℕ :=
  (day <<< offsetBits) % 2 ^ 64 ||| (endOffset &&& offsetMask)

def splitCursor (cursor : ℕ) : ℕ × ℕ := (cursor >>> offsetBits, cursor &&& offsetMask)

/-- Addition of two `u64` that stops at the greatest one. -/
def saturatingAdd (a b : ℕ) : ℕ := min (a + b) (2 ^ 64 - 1)

/-- The file of a day is read once its grace period is over. -/
def settled (day now : ℕ) : Prop := saturatingAdd (day * dayMs % 2 ^ 64) dayGraceMs ≤ now

instance (day now : ℕ) : Decidable (settled day now) := inferInstanceAs (Decidable (_ ≤ _))

/-- How the JSON library writes and reads a record. -/
structure Codec where
  toVec : SpoolRecord → List UInt8
  fromSlice : List UInt8 → Option SpoolRecord

def newline : UInt8 := 10

/-- The files of the spool, by day. -/
abbrev Files := ExtTreeMap ℕ (List UInt8)

/-- The records read, each with its cursor, the number of unparsable lines that
were skipped, and the cursor just past the last complete line. -/
structure ReadResult where
  records : List (ℕ × SpoolRecord)
  badLines : ℕ
  endCursor : ℕ

/-- The day in whose file a record is. -/
def dayOf (r : SpoolRecord) : ℕ := r.tsMs / dayMs

variable (codec : Codec)

def line (r : SpoolRecord) : List UInt8 := Lines.terminate newline (codec.toVec r)

/-- Append one record as a single write. -/
def append (files : Files) (r : SpoolRecord) : Files :=
  files.insert (dayOf r) (files[dayOf r]?.getD [] ++ line codec r)

/-- Read complete lines of the file of a day. -/
def readLines (day : ℕ) : ℕ → List (List UInt8) → ReadResult → ReadResult
  | _, [], out => out
  | offset, chunk :: chunks, out =>
    if chunk.getLast? ≠ some newline then out
    else
      let offset := offset + chunk.length
      let out := match codec.fromSlice chunk.dropLast with
        | some r => { out with records := out.records ++ [(makeCursor day offset, r)] }
        | none => { out with badLines := out.badLines + 1 }
      readLines day offset chunks { out with endCursor := makeCursor day offset }

def readFile (day start : ℕ) (bytes : List UInt8) (out : ReadResult) : ReadResult :=
  readLines codec day start (Lines.splitInclusive newline (bytes.drop start)) out

/-- Read the files of a list of days after the offset `off` of the day `curDay`. -/
def readDays (files : Files) (curDay off now : ℕ) : List ℕ → ReadResult → ReadResult
  | [], out => out
  | day :: days, out =>
    if curDay < day ∧ ¬settled day now then out
    else
      let start := if day = curDay then off else 0
      readDays files curDay off now days (readFile codec day start (files[day]?.getD []) out)

/-- All complete records whose cursor is greater than `cursor`. -/
def readAfter (files : Files) (cursor now : ℕ) : ReadResult :=
  let (curDay, off) := splitCursor cursor
  readDays codec files curDay off now (files.keys.filter (curDay ≤ ·)) ⟨[], 0, cursor⟩

section Cursors

variable {day day' off off' cursor : ℕ}

theorem makeCursor_eq (hd : day < 2 ^ 24) (ho : off < 2 ^ 40) :
    makeCursor day off = day * 2 ^ 40 + off := by
  have hmask : offsetMask = 2 ^ 40 - 1 := by decide
  rw [makeCursor, hmask, Nat.and_two_pow_sub_one_eq_mod, Nat.mod_eq_of_lt ho, Nat.shiftLeft_eq,
    offsetBits, Nat.mod_eq_of_lt (by omega), Nat.mul_comm]
  exact (Nat.two_pow_add_eq_or_of_lt ho day).symm

theorem splitCursor_eq (cursor : ℕ) :
    splitCursor cursor = (cursor / 2 ^ 40, cursor % 2 ^ 40) := by
  have hmask : offsetMask = 2 ^ 40 - 1 := by decide
  rw [splitCursor, hmask, Nat.and_two_pow_sub_one_eq_mod, Nat.shiftRight_eq_div_pow, offsetBits]

theorem splitCursor_makeCursor (hd : day < 2 ^ 24) (ho : off < 2 ^ 40) :
    splitCursor (makeCursor day off) = (day, off) := by
  rw [makeCursor_eq hd ho, splitCursor_eq]
  exact Prod.ext (by omega) (by omega)

theorem makeCursor_splitCursor (h : cursor < 2 ^ 64) :
    makeCursor (splitCursor cursor).1 (splitCursor cursor).2 = cursor := by
  rw [splitCursor_eq]
  exact (makeCursor_eq (by omega) (by omega)).trans (by omega)

theorem makeCursor_lt_iff (hd : day < 2 ^ 24) (ho : off < 2 ^ 40) (hd' : day' < 2 ^ 24)
    (ho' : off' < 2 ^ 40) :
    makeCursor day off < makeCursor day' off' ↔ day < day' ∨ day = day' ∧ off < off' := by
  rw [makeCursor_eq hd ho, makeCursor_eq hd' ho']
  omega

theorem settled_iff (hd : day < 2 ^ 24) (now : ℕ) :
    settled day now ↔ day * dayMs + dayGraceMs ≤ now := by
  have hlt : day * dayMs + dayGraceMs < 2 ^ 64 := by
    rw [dayMs, dayGraceMs]
    omega
  rw [settled, Nat.mod_eq_of_lt (by omega), saturatingAdd, Nat.min_eq_left (by omega)]

end Cursors

/-- The entries of records that are the lines of a file from `off` on. -/
def entries (day : ℕ) : ℕ → List SpoolRecord → List (ℕ × SpoolRecord)
  | _, [] => []
  | off, r :: rs =>
    (makeCursor day (off + (line codec r).length), r) ::
      entries day (off + (line codec r).length) rs

/-- The library reads back what it wrote, and writes no newline. -/
structure Codec.Faithful (r : SpoolRecord) : Prop where
  read : codec.fromSlice (codec.toVec r) = some r
  newline : newline ∉ codec.toVec r

/-- The last cursor of a list of entries, or the one before them. -/
def lastCursor (cursor : ℕ) (es : List (ℕ × SpoolRecord)) : ℕ :=
  (es.getLast?.map (·.1)).getD cursor

def ReadResult.add (out : ReadResult) (es : List (ℕ × SpoolRecord)) : ReadResult where
  records := out.records ++ es
  badLines := out.badLines
  endCursor := lastCursor out.endCursor es

/-- The lines of records. -/
def text (rs : List SpoolRecord) : List UInt8 := rs.flatMap (line codec)

variable {codec}

theorem lastCursor_append (cursor : ℕ) (es fs : List (ℕ × SpoolRecord)) :
    lastCursor cursor (es ++ fs) = lastCursor (lastCursor cursor es) fs := by
  cases fs using List.reverseRecOn with
  | nil => rw [List.append_nil]; rfl
  | append_singleton fs f => simp [lastCursor, ← List.append_assoc]

theorem ReadResult.add_nil (out : ReadResult) : out.add [] = out := by
  simp [ReadResult.add, lastCursor]

theorem ReadResult.add_add (out : ReadResult) (es fs : List (ℕ × SpoolRecord)) :
    (out.add es).add fs = out.add (es ++ fs) := by
  simp only [ReadResult.add, lastCursor_append, List.append_assoc]

theorem readLines_eq {day off : ℕ} {rs : List SpoolRecord} (h : ∀ r ∈ rs, codec.Faithful r)
    (out : ReadResult) :
    readLines codec day off (rs.map (line codec)) out = out.add (entries codec day off rs) := by
  induction rs generalizing off out with
  | nil => exact out.add_nil.symm
  | cons r rs ih =>
    have hlast : (line codec r).getLast? = some newline := Lines.getLast?_terminate _
    have hread : codec.fromSlice (line codec r).dropLast = some r := by
      rw [line, Lines.dropLast_terminate]
      exact (h r List.mem_cons_self).read
    rw [List.map_cons, readLines, if_neg (by simp [hlast]), hread,
      ih fun r' hr => h r' (List.mem_cons_of_mem _ hr)]
    exact ReadResult.add_add out [(makeCursor day (off + (line codec r).length), r)] _

theorem text_append (rs rs' : List SpoolRecord) :
    text codec (rs ++ rs') = text codec rs ++ text codec rs' := List.flatMap_append

theorem readFile_eq {day : ℕ} {pre post : List SpoolRecord} (h : ∀ r ∈ post, codec.Faithful r)
    (out : ReadResult) :
    readFile codec day (text codec pre).length (text codec (pre ++ post)) out =
      out.add (entries codec day (text codec pre).length post) := by
  have hlines : text codec post = (post.map codec.toVec).flatMap (Lines.terminate newline) := by
    rw [List.flatMap_map]
    rfl
  rw [readFile, text_append, List.drop_left, hlines, Lines.splitInclusive_flatMap, List.map_map]
  · exact readLines_eq h out
  · intro l hl
    obtain ⟨r, hr, rfl⟩ := List.mem_map.mp hl
    exact (h r hr).newline

theorem readFile_eq_zero {day : ℕ} {rs : List SpoolRecord} (h : ∀ r ∈ rs, codec.Faithful r)
    (out : ReadResult) :
    readFile codec day 0 (text codec rs) out = out.add (entries codec day 0 rs) := by
  have hread : readFile codec day (text codec []).length (text codec ([] ++ rs)) out =
      out.add (entries codec day (text codec []).length rs) := readFile_eq h out
  exact hread

theorem entries_append (day off : ℕ) (rs rs' : List SpoolRecord) :
    entries codec day off (rs ++ rs') =
      entries codec day off rs ++ entries codec day (off + (text codec rs).length) rs' := by
  induction rs generalizing off with
  | nil => rfl
  | cons r rs ih =>
    simp only [List.cons_append, entries, ih, text, List.flatMap_cons, List.length_append,
      Nat.add_assoc]

theorem line_length_pos (r : SpoolRecord) : 0 < (line codec r).length := by
  rw [line, Lines.length_terminate]
  omega

/-- Where an entry lies in its file. -/
theorem mem_entries {day off : ℕ} {rs : List SpoolRecord} {x : ℕ × SpoolRecord}
    (h : x ∈ entries codec day off rs) :
    ∃ pre post, rs = pre ++ post ∧ pre ≠ [] ∧
      x.1 = makeCursor day (off + (text codec pre).length) := by
  induction rs generalizing off with
  | nil => cases h
  | cons r rs ih =>
    rcases List.mem_cons.mp h with rfl | h
    · exact ⟨[r], rs, rfl, List.cons_ne_nil _ _, by simp [text]⟩
    · obtain ⟨pre, post, rfl, -, hx⟩ := ih h
      refine ⟨r :: pre, post, rfl, List.cons_ne_nil _ _, hx.trans ?_⟩
      rw [text, text, List.flatMap_cons, List.length_append, Nat.add_assoc]

theorem text_length_pos {rs : List SpoolRecord} (h : rs ≠ []) : 0 < (text codec rs).length := by
  cases rs with
  | nil => exact (h rfl).elim
  | cons r rs =>
    rw [text, List.flatMap_cons, List.length_append]
    have : 0 < (line codec r).length := line_length_pos r
    omega

theorem text_append_length (rs rs' : List SpoolRecord) :
    (text codec (rs ++ rs')).length = (text codec rs).length + (text codec rs').length := by
  rw [text_append, List.length_append]

/-- The cursors of a file lie after its start and up to its end. -/
theorem entries_bounds {day off : ℕ} {rs : List SpoolRecord} {x : ℕ × SpoolRecord}
    (hd : day < 2 ^ 24) (ho : off + (text codec rs).length < 2 ^ 40)
    (h : x ∈ entries codec day off rs) :
    makeCursor day off < x.1 ∧ x.1 ≤ makeCursor day (off + (text codec rs).length) := by
  obtain ⟨pre, post, rfl, hne, hx⟩ := mem_entries h
  have hpos : 0 < (text codec pre).length := text_length_pos hne
  rw [text_append_length] at ho ⊢
  rw [hx, makeCursor_eq hd (by omega), makeCursor_eq hd (by omega), makeCursor_eq hd (by omega)]
  omega

theorem entries_sorted {day off : ℕ} {rs : List SpoolRecord} (hd : day < 2 ^ 24)
    (ho : off + (text codec rs).length < 2 ^ 40) :
    (entries codec day off rs).Pairwise (·.1 < ·.1) := by
  induction rs generalizing off with
  | nil => exact .nil
  | cons r rs ih =>
    have hlen : (text codec (r :: rs)).length = (line codec r).length + (text codec rs).length := by
      rw [text, List.flatMap_cons, List.length_append]
      rfl
    rw [hlen] at ho
    rw [entries, List.pairwise_cons]
    exact ⟨fun x hx => (entries_bounds hd (by omega) hx).1, ih (by omega)⟩

/-- The files hold the lines of the records of each day. -/
structure Holds (codec : Codec) (files : Files) (recs : ℕ → List SpoolRecord) : Prop where
  file : ∀ day, files[day]? = if recs day = [] then none else some (text codec (recs day))
  faithful : ∀ day, ∀ r ∈ recs day, codec.Faithful r
  day_lt : ∀ day, recs day ≠ [] → day < 2 ^ 24
  length_lt : ∀ day, (text codec (recs day)).length < 2 ^ 40

/-- A cursor at the end of a record of its day, or at the start of the day. -/
def Aligned (codec : Codec) (recs : ℕ → List SpoolRecord) (cursor : ℕ) : Prop :=
  ∃ pre post, recs (splitCursor cursor).1 = pre ++ post ∧
    (splitCursor cursor).2 = (text codec pre).length

section Read

variable {files : Files} {recs : ℕ → List SpoolRecord} {curDay off now : ℕ}
  {pre post : List SpoolRecord}

/-- What a read takes from the file of a day. -/
def dayPart (codec : Codec) (recs : ℕ → List SpoolRecord) (curDay off : ℕ)
    (post : List SpoolRecord) (day : ℕ) : List (ℕ × SpoolRecord) :=
  if day = curDay then entries codec day off post else entries codec day 0 (recs day)

def Readable (curDay now day : ℕ) : Prop := day = curDay ∨ curDay < day ∧ settled day now

instance (curDay now day : ℕ) : Decidable (Readable curDay now day) :=
  inferInstanceAs (Decidable (_ ∨ _))

theorem Holds.getD (h : Holds codec files recs) (day : ℕ) :
    files[day]?.getD [] = text codec (recs day) := by
  rw [h.file]
  split_ifs with he
  · rw [he]
    rfl
  · rfl

theorem readDays_eq (h : Holds codec files recs) (hcur : recs curDay = pre ++ post)
    {days : List ℕ} (hdays : ∀ day ∈ days, curDay ≤ day ∧ day < 2 ^ 24)
    (hsorted : days.Pairwise (· < ·)) (out : ReadResult) :
    readDays codec files curDay (text codec pre).length now days out =
      out.add ((days.filter (Readable curDay now)).flatMap
        (dayPart codec recs curDay (text codec pre).length post)) := by
  induction days generalizing out with
  | nil => exact out.add_nil.symm
  | cons day days ih =>
    obtain ⟨hle, hlt⟩ := hdays day List.mem_cons_self
    obtain ⟨hfirst, hsorted⟩ := List.pairwise_cons.mp hsorted
    rw [readDays]
    by_cases hr : Readable curDay now day
    · rw [if_neg (by rintro ⟨hc, hn⟩; rcases hr with rfl | ⟨-, hs⟩; exacts [Nat.lt_irrefl _ hc, hn hs]),
        List.filter_cons_of_pos (by simpa using hr), List.flatMap_cons, ← ReadResult.add_add,
        ih (fun d hd => hdays d (List.mem_cons_of_mem _ hd)) hsorted]
      congr 1
      rw [h.getD, dayPart]
      split_ifs with he
      · subst he
        rw [hcur]
        refine readFile_eq (fun r hr => h.faithful day r ?_) out
        rw [hcur]
        exact List.mem_append_right _ hr
      · exact readFile_eq_zero (h.faithful day) out
    · -- The days are in order, so none after this one is settled either.
      have hnot : curDay < day ∧ ¬settled day now := by
        rw [Readable, not_or, not_and] at hr
        exact ⟨by omega, hr.2 (by omega)⟩
      have hrest : ∀ d ∈ days, ¬Readable curDay now d := by
        rintro d hd (rfl | ⟨-, hs⟩)
        · have := hfirst d hd
          omega
        · rw [settled_iff (hdays d (List.mem_cons_of_mem _ hd)).2] at hs
          rw [settled_iff hlt] at hnot
          have := hfirst d hd
          simp only [dayMs] at hs hnot
          omega
      rw [if_pos hnot, List.filter_cons_of_neg (by simpa using hr),
        List.filter_eq_nil_iff.mpr (by simpa using hrest), List.flatMap_nil, out.add_nil]

theorem mem_keys_iff (h : Holds codec files recs) (day : ℕ) : day ∈ files.keys ↔ recs day ≠ [] := by
  rw [ExtTreeMap.mem_keys, ExtTreeMap.mem_iff_isSome_getElem?, h.file]
  split_ifs with he
  · simp [he]
  · simp [he]

/-- An entry of a day has that day and an offset into its file as its cursor. -/
theorem Holds.cursor_eq (h : Holds codec files recs) {day : ℕ} {x : ℕ × SpoolRecord}
    (hx : x ∈ entries codec day 0 (recs day)) :
    ∃ o, x.1 = day * 2 ^ 40 + o ∧ 0 < o ∧ o < 2 ^ 40 ∧ recs day ≠ [] := by
  obtain ⟨a, b, hrs, hne, hc⟩ := mem_entries hx
  have hlen := h.length_lt day
  rw [hrs, text_append_length] at hlen
  have hne' : recs day ≠ [] := by simp [hrs, hne]
  rw [Nat.zero_add, makeCursor_eq (h.day_lt day hne') (by omega)] at hc
  exact ⟨_, hc, text_length_pos hne, by omega, hne'⟩

theorem mem_dayPart (h : Holds codec files recs) {cursor day : ℕ} {x : ℕ × SpoolRecord}
    (hcur : recs (splitCursor cursor).1 = pre ++ post)
    (hoff : (splitCursor cursor).2 = (text codec pre).length) (hday : (splitCursor cursor).1 ≤ day) :
    x ∈ dayPart codec recs (splitCursor cursor).1 (text codec pre).length post day ↔
      x ∈ entries codec day 0 (recs day) ∧ cursor < x.1 := by
  rw [splitCursor_eq] at hcur hoff hday ⊢
  rw [dayPart]
  split_ifs with he
  · subst he
    have hsplit : entries codec (cursor / 2 ^ 40) 0 (pre ++ post) =
        entries codec (cursor / 2 ^ 40) 0 pre ++
          entries codec (cursor / 2 ^ 40) (text codec pre).length post := by
      rw [entries_append, Nat.zero_add]
    simp only at hcur hoff
    rw [hcur, hsplit, List.mem_append]
    have hmem : ∀ {y}, y ∈ entries codec (cursor / 2 ^ 40) 0 pre ++
        entries codec (cursor / 2 ^ 40) (text codec pre).length post →
        cursor / 2 ^ 40 < 2 ^ 24 ∧ (text codec (pre ++ post)).length < 2 ^ 40 := by
      intro y hy
      rw [← hsplit, ← hcur] at hy
      obtain ⟨o, -, -, -, hne⟩ := h.cursor_eq hy
      exact ⟨h.day_lt _ hne, hcur ▸ h.length_lt _⟩
    have hcursor : (cursor / 2 ^ 40) * 2 ^ 40 + (text codec pre).length = cursor := by omega
    constructor
    · intro hx
      obtain ⟨hd, hlen⟩ := hmem (List.mem_append_right _ hx)
      rw [text_append_length] at hlen
      have := (entries_bounds hd (by omega) hx).1
      rw [makeCursor_eq hd (by omega), hcursor] at this
      exact ⟨.inr hx, this⟩
    · rintro ⟨hx | hx, hlt⟩
      · obtain ⟨hd, hlen⟩ := hmem (List.mem_append_left _ hx)
        rw [text_append_length] at hlen
        have := (entries_bounds hd (by omega) hx).2
        rw [Nat.zero_add, makeCursor_eq hd (by omega), hcursor] at this
        omega
      · exact hx
  · constructor
    · intro hx
      obtain ⟨o, hc, hpos, -, -⟩ := h.cursor_eq hx
      simp only at hday he
      exact ⟨hx, by omega⟩
    · exact fun hx => hx.1

theorem keys_sorted (files : Files) : files.keys.Pairwise (· < ·) :=
  ExtTreeMap.ordered_keys.imp fun h => Nat.compare_eq_lt.mp h

theorem readAfter_eq (h : Holds codec files recs) {cursor : ℕ}
    (hcur : recs (splitCursor cursor).1 = pre ++ post)
    (hoff : (splitCursor cursor).2 = (text codec pre).length) :
    readAfter codec files cursor now =
      ReadResult.add ⟨[], 0, cursor⟩ (((files.keys.filter ((splitCursor cursor).1 ≤ ·)).filter
        (Readable (splitCursor cursor).1 now)).flatMap
          (dayPart codec recs (splitCursor cursor).1 (text codec pre).length post)) := by
  rw [readAfter, ← readDays_eq h hcur, ← hoff]
  · intro day hday
    obtain ⟨hk, hle⟩ := List.mem_filter.mp hday
    exact ⟨of_decide_eq_true hle, h.day_lt day ((mem_keys_iff h day).mp hk)⟩
  · exact (keys_sorted files).filter _

theorem mem_readAfter (h : Holds codec files recs) {cursor : ℕ} (hc : Aligned codec recs cursor)
    {x : ℕ × SpoolRecord} :
    x ∈ (readAfter codec files cursor now).records ↔ ∃ day, x ∈ entries codec day 0 (recs day) ∧
      cursor < x.1 ∧ Readable (splitCursor cursor).1 now day := by
  obtain ⟨pre, post, hcur, hoff⟩ := hc
  rw [readAfter_eq h hcur hoff, ReadResult.add, List.nil_append, List.mem_flatMap]
  constructor
  · rintro ⟨day, hday, hx⟩
    obtain ⟨hday, hr⟩ := List.mem_filter.mp hday
    obtain ⟨-, hle⟩ := List.mem_filter.mp hday
    obtain ⟨hx, hlt⟩ := (mem_dayPart h hcur hoff (of_decide_eq_true hle)).mp hx
    exact ⟨day, hx, hlt, of_decide_eq_true hr⟩
  · rintro ⟨day, hx, hlt, hr⟩
    have hle : (splitCursor cursor).1 ≤ day := by
      rcases hr with rfl | ⟨hlt, -⟩
      · exact Nat.le_refl _
      · omega
    obtain ⟨o, -, -, -, hne⟩ := h.cursor_eq hx
    refine ⟨day, ?_, (mem_dayPart h hcur hoff hle).mpr ⟨hx, hlt⟩⟩
    simp only [List.mem_filter, decide_eq_true_eq]
    exact ⟨⟨(mem_keys_iff h day).mpr hne, hle⟩, hr⟩

/-- The records of a read are in strictly increasing cursor order. -/
theorem readAfter_sorted (h : Holds codec files recs) {cursor : ℕ}
    (hc : Aligned codec recs cursor) :
    (readAfter codec files cursor now).records.Pairwise (·.1 < ·.1) := by
  obtain ⟨pre, post, hcur, hoff⟩ := hc
  rw [readAfter_eq h hcur hoff, ReadResult.add, List.nil_append, List.pairwise_flatMap]
  constructor
  · intro day hday
    obtain ⟨hday, -⟩ := List.mem_filter.mp hday
    obtain ⟨hk, -⟩ := List.mem_filter.mp hday
    have hlt := h.day_lt day ((mem_keys_iff h day).mp hk)
    have hlen := h.length_lt day
    rw [dayPart]
    split_ifs with he
    · subst he
      rw [hcur, text_append_length] at hlen
      exact entries_sorted hlt hlen
    · exact entries_sorted hlt (by omega)
  · refine (((keys_sorted files).filter _).filter _).imp_of_mem ?_
    intro a b ha hb hab x hx y hy
    have hmem : ∀ {d}, d ∈ (files.keys.filter ((splitCursor cursor).1 ≤ ·)).filter
        (Readable (splitCursor cursor).1 now) → (splitCursor cursor).1 ≤ d := by
      intro d hd
      exact of_decide_eq_true (List.mem_filter.mp (List.mem_filter.mp hd).1).2
    obtain ⟨o, hx, -, ho, -⟩ := h.cursor_eq ((mem_dayPart h hcur hoff (hmem ha)).mp hx).1
    obtain ⟨o', hy, -⟩ := h.cursor_eq ((mem_dayPart h hcur hoff (hmem hb)).mp hy).1
    omega

theorem readAfter_end (h : Holds codec files recs) {cursor : ℕ}
    (hc : Aligned codec recs cursor) :
    (readAfter codec files cursor now).badLines = 0 ∧
      (readAfter codec files cursor now).endCursor =
        lastCursor cursor (readAfter codec files cursor now).records := by
  obtain ⟨pre, post, hcur, hoff⟩ := hc
  rw [readAfter_eq h hcur hoff, ReadResult.add, List.nil_append]
  exact ⟨rfl, rfl⟩

theorem le_lastCursor {cursor : ℕ} {es : List (ℕ × SpoolRecord)}
    (hs : es.Pairwise (·.1 < ·.1)) {x : ℕ × SpoolRecord} (hx : x ∈ es) :
    x.1 ≤ lastCursor cursor es := by
  cases es using List.reverseRecOn with
  | nil => cases hx
  | append_singleton es e =>
    have hl : lastCursor cursor (es ++ [e]) = e.1 := by simp [lastCursor]
    rw [hl]
    obtain ⟨-, -, hlt⟩ := List.pairwise_append.mp hs
    rcases List.mem_append.mp hx with hx | hx
    · exact Nat.le_of_lt (hlt x hx e (List.mem_singleton_self e))
    · exact Nat.le_of_eq (congrArg Prod.fst (List.mem_singleton.mp hx))

theorem lastCursor_cases (cursor : ℕ) (es : List (ℕ × SpoolRecord)) :
    es = [] ∧ lastCursor cursor es = cursor ∨ ∃ e ∈ es, lastCursor cursor es = e.1 := by
  cases es using List.reverseRecOn with
  | nil => exact .inl ⟨rfl, rfl⟩
  | append_singleton es e => exact .inr ⟨e, by simp, by simp [lastCursor]⟩

/-- A read returns the entries after its cursor and up to its end cursor. -/
theorem mem_readAfter_iff (h : Holds codec files recs) {cursor : ℕ}
    (hc : Aligned codec recs cursor) {x : ℕ × SpoolRecord} :
    x ∈ (readAfter codec files cursor now).records ↔ (∃ day, x ∈ entries codec day 0 (recs day)) ∧
      cursor < x.1 ∧ x.1 ≤ (readAfter codec files cursor now).endCursor := by
  rw [(readAfter_end h hc).2]
  constructor
  · intro hx
    obtain ⟨day, hday, hlt, -⟩ := (mem_readAfter h hc).mp hx
    exact ⟨⟨day, hday⟩, hlt, le_lastCursor (readAfter_sorted h hc) hx⟩
  · rintro ⟨⟨day, hday⟩, hlt, hle⟩
    rw [mem_readAfter h hc]
    refine ⟨day, hday, hlt, ?_⟩
    obtain ⟨o, hx, -, ho, hne⟩ := h.cursor_eq hday
    by_contra hr
    rw [Readable, not_or, not_and] at hr
    have hsplit := splitCursor_eq cursor
    have hcd : (splitCursor cursor).1 < day := by
      rw [hsplit] at hr ⊢
      simp only at hr ⊢
      omega
    have hns := hr.2 hcd
    rw [settled_iff (h.day_lt day hne)] at hns
    -- Whatever the read ended with belongs to an earlier day.
    rcases lastCursor_cases cursor (readAfter codec files cursor now).records with
      ⟨-, he⟩ | ⟨e, hmem, he⟩
    · omega
    · obtain ⟨d, hd, -, hrd⟩ := (mem_readAfter h hc).mp hmem
      obtain ⟨o', hy, -, ho', hne'⟩ := h.cursor_eq hd
      rw [he] at hle
      rcases hrd with rfl | ⟨-, hs⟩
      · omega
      · rw [settled_iff (h.day_lt d hne')] at hs
        simp only [dayMs] at hs hns
        omega

end Read

end MultiAi.Spool
