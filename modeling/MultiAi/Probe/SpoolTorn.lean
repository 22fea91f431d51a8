import MultiAi.Probe.Spool
import Mathlib.Data.List.Sort

/-! # Appending after a torn line

A writer that died leaves a line without its newline. The next append starts in that line, and a
reader takes the two for one: the record is read exactly if nothing but blanks was left.
-/

namespace MultiAi.Spool

open Std

/-- What may stand before a JSON value on its line. -/
def Blank (bytes : List UInt8) : Prop := ∀ b ∈ bytes, b ∈ ([32, 9, 13] : List UInt8)

instance (bytes : List UInt8) : Decidable (Blank bytes) :=
  inferInstanceAs (Decidable (∀ _ ∈ _, _))

/-- The library writes a record on one line and reads it back after blanks only. -/
structure Codec.Delimits (codec : Codec) (r : SpoolRecord) : Prop where
  newline : newline ∉ codec.toVec r
  read : ∀ junk, Spool.newline ∉ junk →
    (codec.fromSlice (junk ++ codec.toVec r) = some r ↔ Blank junk)

/-- Where a read starts in the file of a day. -/
def startOf (cursor day : ℕ) : ℕ :=
  if day = (splitCursor cursor).1 then (splitCursor cursor).2 else 0

/-- A read stops before a later day that is not settled. -/
def Stops (cursor now day : ℕ) : Prop := (splitCursor cursor).1 < day ∧ ¬settled day now

instance (cursor now day : ℕ) : Decidable (Stops cursor now day) :=
  inferInstanceAs (Decidable (_ ∧ _))

/-- The line that is left without a newline in the part of a day's file that a read sees. -/
def torn (files : Files) (cursor day : ℕ) : List UInt8 :=
  Lines.rest newline ((files[day]?.getD []).drop (startOf cursor day))

/-- The cursor of a record that is appended. -/
def appendEnd (codec : Codec) (files : Files) (r : SpoolRecord) : ℕ :=
  makeCursor (dayOf r) ((files[dayOf r]?.getD []) ++ line codec r).length

/-- The records of lines, with their cursors. -/
def lineRecords (codec : Codec) (day : ℕ) : ℕ → List (List UInt8) → List (ℕ × SpoolRecord)
  | _, [] => []
  | off, l :: ls =>
    (codec.fromSlice l).toList.map (fun r => (makeCursor day (off + (l.length + 1)), r)) ++
      lineRecords codec day (off + (l.length + 1)) ls

/-- The records of a day that a read returns. -/
def dayRecords (codec : Codec) (files : Files) (cursor day : ℕ) : List (ℕ × SpoolRecord) :=
  (readFile codec day (startOf cursor day) (files[day]?.getD []) ⟨[], 0, 0⟩).records

section Lines

variable {codec : Codec} {day off : ℕ} {ls : List (List UInt8)} {left bytes : List UInt8}

theorem lineRecords_append (l : List UInt8) : lineRecords codec day off (ls ++ [l]) =
    lineRecords codec day off ls ++ (codec.fromSlice l).toList.map fun r =>
      (makeCursor day (off + (ls.flatMap (Lines.terminate newline)).length + (l.length + 1)), r) := by
  induction ls generalizing off with
  | nil => simp [lineRecords]
  | cons l' ls ih =>
    rw [List.cons_append, lineRecords, ih, lineRecords, List.append_assoc, List.flatMap_cons,
      List.length_append, Lines.length_terminate, Nat.add_assoc off]

/-- Lines are read up to one without a newline. -/
theorem readLines_records (h : newline ∉ left) (out : ReadResult) :
    (readLines codec day off (ls.map (Lines.terminate newline) ++
      if left = [] then [] else [left]) out).records =
        out.records ++ lineRecords codec day off ls := by
  induction ls generalizing off out with
  | nil =>
    rw [List.map_nil, List.nil_append, lineRecords, List.append_nil]
    split_ifs with hl
    · rfl
    · have hlast : left.getLast? ≠ some newline := fun hn => h (List.mem_of_getLast? hn)
      rw [readLines, if_pos hlast]
  | cons l ls ih =>
    have hlast : (Lines.terminate newline l).getLast? = some newline := Lines.getLast?_terminate l
    rw [List.map_cons, List.cons_append, readLines, if_neg (by simp [hlast]), ih,
      Lines.dropLast_terminate, Lines.length_terminate, lineRecords]
    cases codec.fromSlice l <;> simp

theorem readFile_records (hl : ∀ l ∈ ls, newline ∉ l) (h : newline ∉ left)
    (hb : bytes.drop off = ls.flatMap (Lines.terminate newline) ++ left) (out : ReadResult) :
    (readFile codec day off bytes out).records =
      out.records ++ lineRecords codec day off ls := by
  rw [readFile, hb, Lines.splitInclusive_flatMap_append hl, Lines.splitInclusive_of_notMem h,
    readLines_records h]

end Lines

section Days

variable {codec : Codec} {files : Files} {r : SpoolRecord} {cursor now day : ℕ}

theorem readFile_out (files : Files) (cursor day : ℕ) (out : ReadResult) :
    (readFile codec day (startOf cursor day) (files[day]?.getD []) out).records =
      out.records ++ dayRecords codec files cursor day := by
  obtain ⟨ls, left, hl, h, hb⟩ :=
    Lines.exists_lines newline ((files[day]?.getD []).drop (startOf cursor day))
  rw [dayRecords, readFile_records hl h hb, readFile_records hl h hb]
  rfl

/-- A read takes the days in order up to the first that is not settled. -/
theorem readDays_records (days : List ℕ) (out : ReadResult) :
    (readDays codec files (splitCursor cursor).1 (splitCursor cursor).2 now days out).records =
      out.records ++ (days.takeWhile fun d => ¬Stops cursor now d).flatMap
        (dayRecords codec files cursor) := by
  induction days generalizing out with
  | nil => exact (List.append_nil _).symm
  | cons day days ih =>
    by_cases hs : Stops cursor now day
    · rw [readDays, if_pos (show _ ∧ _ from hs), List.takeWhile_cons_of_neg (by simpa using hs)]
      exact (List.append_nil _).symm
    · rw [readDays, if_neg (show ¬(_ ∧ _) from hs), List.takeWhile_cons_of_pos (by simpa using hs), List.flatMap_cons,
        ← List.append_assoc, ← readFile_out]
      exact ih _

/-- The days of a read before and after a day gets a line. -/
theorem days_insert (files : Files) {curDay : ℕ} (hd : curDay ≤ day) (bytes : List UInt8) :
    ∃ before after, ((files.insert day bytes).keys.filter (curDay ≤ ·)) = before ++ day :: after ∧
      (∀ d ∈ before, d < day) ∧ (∀ d ∈ after, day < d) ∧
      (files.keys.filter (curDay ≤ ·) = before ++ day :: after ∨
        files[day]? = none ∧ files.keys.filter (curDay ≤ ·) = before ++ after) := by
  have hsorted (files : Files) : (files.keys.filter (curDay ≤ ·)).Pairwise (· < ·) :=
    (keys_sorted files).filter _
  have hmem : day ∈ (files.insert day bytes).keys.filter (curDay ≤ ·) := by simp [hd]
  obtain ⟨before, after, hcut⟩ := List.append_of_mem hmem
  have hs := hsorted (files.insert day bytes)
  rw [hcut, List.pairwise_append, List.pairwise_cons] at hs
  refine ⟨before, after, hcut, fun d hm => hs.2.2 d hm day List.mem_cons_self, hs.2.1.1, ?_⟩
  have hsame : ∀ d, d ≠ day → (d ∈ files.keys ↔ d ∈ (files.insert day bytes).keys) := by
    intro d hne
    simp [Ne.symm hne]
  cases hfile : files[day]? with
  | some old =>
    left
    rw [← hcut]
    refine (hsorted files).eq_of_mem_iff (hsorted _) fun d => ?_
    have hday : day ∈ files := by simp [ExtTreeMap.mem_iff_isSome_getElem?, hfile]
    rw [List.mem_filter, List.mem_filter]
    refine and_congr_left fun _ => ?_
    by_cases hne : d = day
    · subst hne
      simp [hday]
    · exact hsame d hne
  | none =>
    right
    refine ⟨rfl, (hsorted files).eq_of_mem_iff ?_ fun d => ?_⟩
    · rw [List.pairwise_append]
      exact ⟨hs.1, hs.2.1.2, fun x hx y hy => hs.2.2 x hx y (List.mem_cons_of_mem _ hy)⟩
    · by_cases hne : d = day
      · subst hne
        have hnot : d ∉ files := by simp [ExtTreeMap.mem_iff_isSome_getElem?, hfile]
        refine iff_of_false (by simp [hnot]) fun hm => ?_
        rcases List.mem_append.mp hm with hm | hm
        · exact Nat.lt_irrefl _ (hs.2.2 d hm d List.mem_cons_self)
        · exact Nat.lt_irrefl _ (hs.2.1.1 d hm)
      · have hfilter : d ∈ files.keys.filter (curDay ≤ ·) ↔
            d ∈ (files.insert day bytes).keys.filter (curDay ≤ ·) := by
          rw [List.mem_filter, List.mem_filter, hsame d hne]
        rw [hfilter, hcut]
        simp [hne]

theorem dayRecords_append_ne (files : Files) (cursor : ℕ) (hd : day ≠ dayOf r) :
    dayRecords codec (append codec files r) cursor day = dayRecords codec files cursor day := by
  rw [dayRecords, append, ExtTreeMap.getElem?_insert, if_neg (by simpa using Ne.symm hd)]
  rfl

theorem dayRecords_none (cursor : ℕ) (h : files[day]? = none) :
    dayRecords codec files cursor day = [] := by
  rw [dayRecords, h, Option.getD_none, readFile, List.drop_nil]
  rfl

/-- The day gets what the torn line and the record are read as together. -/
theorem dayRecords_append (h : newline ∉ codec.toVec r)
    (hstart : startOf cursor (dayOf r) ≤ (files[dayOf r]?.getD []).length) :
    dayRecords codec (append codec files r) cursor (dayOf r) =
      dayRecords codec files cursor (dayOf r) ++
        (codec.fromSlice (torn files cursor (dayOf r) ++ codec.toVec r)).toList.map fun x =>
          (appendEnd codec files r, x) := by
  obtain ⟨ls, left, hl, hleft, hb⟩ :=
    Lines.exists_lines newline ((files[dayOf r]?.getD []).drop (startOf cursor (dayOf r)))
  have htorn : torn files cursor (dayOf r) = left := by rw [torn, hb, Lines.rest_append hleft]
  have hlines : ∀ l ∈ ls ++ [left ++ codec.toVec r], newline ∉ l := by
    rw [List.forall_mem_append, List.forall_mem_singleton, List.mem_append, not_or]
    exact ⟨hl, hleft, h⟩
  have hnew : ((files[dayOf r]?.getD []) ++ line codec r).drop (startOf cursor (dayOf r)) =
      (ls ++ [left ++ codec.toVec r]).flatMap (Lines.terminate newline) ++ [] := by
    rw [List.drop_append_of_le_length hstart, hb, line, List.flatMap_append, List.append_assoc,
      List.append_nil, List.flatMap_singleton]
    simp [Lines.terminate]
  have hend : startOf cursor (dayOf r) + (ls.flatMap (Lines.terminate newline)).length +
      ((left ++ codec.toVec r).length + 1) =
        ((files[dayOf r]?.getD []) ++ line codec r).length := by
    have hlen := congrArg List.length hb
    rw [List.length_drop, List.length_append] at hlen
    rw [line, List.length_append, List.length_append, Lines.length_terminate]
    omega
  have hfile : (append codec files r)[dayOf r]?.getD [] =
      (files[dayOf r]?.getD []) ++ line codec r := by simp [append]
  rw [dayRecords, hfile, readFile_records hlines List.not_mem_nil hnew, dayRecords,
    readFile_records hl hleft hb, lineRecords_append, hend, htorn]
  rfl

/-- The days before one that is read are settled. -/
theorem not_stops_of_lt (hts : r.tsMs < 2 ^ 64) (hr : Readable (splitCursor cursor).1 now (dayOf r))
    (hd : day < dayOf r) : ¬Stops cursor now day := by
  rintro ⟨hlt, hns⟩
  obtain heq | ⟨-, hs⟩ := hr
  · omega
  · apply hns
    have hday : dayOf r * dayMs ≤ r.tsMs := Nat.div_mul_le_self _ _
    have hle : day * dayMs ≤ dayOf r * dayMs := Nat.mul_le_mul_right _ hd.le
    rw [settled, Nat.mod_eq_of_lt (by omega), saturatingAdd] at hs ⊢
    omega

theorem not_stops_of_readable (hr : Readable (splitCursor cursor).1 now day) :
    ¬Stops cursor now day := by
  rintro ⟨hlt, hns⟩
  obtain rfl | ⟨-, hs⟩ := hr
  · exact Nat.lt_irrefl _ hlt
  · exact hns hs

/-- What an append adds to a read. -/
theorem readAfter_append (h : newline ∉ codec.toVec r) (hts : r.tsMs < 2 ^ 64)
    (hr : Readable (splitCursor cursor).1 now (dayOf r))
    (hcur : startOf cursor (dayOf r) ≤ (files[dayOf r]?.getD []).length) :
    ∃ pre post, (readAfter codec files cursor now).records = pre ++ post ∧
      (readAfter codec (append codec files r) cursor now).records =
        pre ++ (codec.fromSlice (torn files cursor (dayOf r) ++ codec.toVec r)).toList.map
          (fun x => (appendEnd codec files r, x)) ++ post := by
  have hle : (splitCursor cursor).1 ≤ dayOf r := by
    obtain heq | ⟨hlt, -⟩ := hr
    · exact heq.ge
    · exact hlt.le
  obtain ⟨before, after, hnew, hbefore, hafter, hold⟩ :=
    days_insert files hle (files[dayOf r]?.getD [] ++ line codec r)
  have hpass (days : List ℕ) : (before ++ days).takeWhile (fun d => ¬Stops cursor now d) =
      before ++ days.takeWhile fun d => ¬Stops cursor now d :=
    List.takeWhile_append_of_pos fun d hd =>
      decide_eq_true (not_stops_of_lt hts hr (hbefore d hd))
  have hday : (dayOf r :: after).takeWhile (fun d => ¬Stops cursor now d) =
      dayOf r :: after.takeWhile fun d => ¬Stops cursor now d :=
    List.takeWhile_cons_of_pos (decide_eq_true (not_stops_of_readable hr))
  have hsame (days : List ℕ) (hne : ∀ d ∈ days, d ≠ dayOf r) :
      days.flatMap (dayRecords codec (append codec files r) cursor) =
        days.flatMap (dayRecords codec files cursor) :=
    List.flatMap_congr fun d hd => dayRecords_append_ne files cursor (hne d hd)
  refine ⟨before.flatMap (dayRecords codec files cursor) ++
      dayRecords codec files cursor (dayOf r),
    (after.takeWhile fun d => ¬Stops cursor now d).flatMap (dayRecords codec files cursor), ?_, ?_⟩
  · rw [readAfter, readDays_records, List.nil_append]
    obtain hold | ⟨hnone, hold⟩ := hold
    · rw [hold, hpass, hday, List.flatMap_append, List.flatMap_cons, List.append_assoc]
    · rw [hold, hpass, List.flatMap_append, dayRecords_none cursor hnone, List.append_nil]
  · rw [readAfter, readDays_records, List.nil_append, append, hnew, ← append, hpass, hday,
      List.flatMap_append, List.flatMap_cons, dayRecords_append h hcur,
      hsame before fun d hd => (hbefore d hd).ne, hsame _ fun d hd =>
        (hafter d ((List.takeWhile_sublist _).subset hd)).ne']
    simp only [List.append_assoc]

/-- A read from a cursor at or before an append returns the record of the append, once and beside
what it returned before, exactly if the append came after blanks only. -/
theorem append_read_iff (h : codec.Delimits r) (hts : r.tsMs < 2 ^ 64)
    (hr : Readable (splitCursor cursor).1 now (dayOf r))
    (hcur : startOf cursor (dayOf r) ≤ (files[dayOf r]?.getD []).length) :
    (∃ pre post, (readAfter codec files cursor now).records = pre ++ post ∧
      (readAfter codec (append codec files r) cursor now).records =
        pre ++ (appendEnd codec files r, r) :: post) ↔ Blank (torn files cursor (dayOf r)) := by
  rw [← h.read (torn files cursor (dayOf r)) (Lines.notMem_rest _)]
  obtain ⟨pre, post, hold, hnew⟩ := readAfter_append h.newline hts hr hcur
  constructor
  · rintro ⟨pre', post', hold', hnew'⟩
    have hsplit := hold.symm.trans hold'
    rw [hnew, List.append_assoc] at hnew'
    -- As much comes in as one entry, so it is that entry.
    have hone : ((codec.fromSlice (torn files cursor (dayOf r) ++ codec.toVec r)).toList.map
        fun x => (appendEnd codec files r, x)) = [(appendEnd codec files r, r)] := by
      apply List.perm_singleton.mp
      rw [← List.perm_append_right_iff (pre ++ post)]
      refine (List.perm_append_comm_assoc _ pre post).trans ?_
      rw [hnew', hsplit]
      exact List.perm_middle
    cases hread : codec.fromSlice (torn files cursor (dayOf r) ++ codec.toVec r) with
    | none => simp [hread] at hone
    | some x => simpa [hread] using hone
  · intro hread
    refine ⟨pre, post, hold, ?_⟩
    rw [hnew, hread]
    simp

end Days

section Examples

def sampleRecord : SpoolRecord := ⟨1, "claude", "work", 1, .null⟩

def sampleText : List UInt8 :=
  ("\x7b\"ts_ms\":1,\"agent\":\"claude\",\"session\":\"work\",\"pane_id\":1," ++
    "\"payload\":null\x7d").toList.map fun c => UInt8.ofNat c.toNat

/-- A library that knows one record. -/
def sampleCodec : Codec where
  toVec _ := sampleText
  fromSlice bytes :=
    if bytes.dropWhile (· ∈ [32, 9, 13]) = sampleText then some sampleRecord else none

theorem dropWhile_append_iff {α : Type} {p : α → Bool} {junk v : List α}
    (hv : v.dropWhile p = v) : (junk ++ v).dropWhile p = v ↔ ∀ a ∈ junk, p a = true := by
  induction junk with
  | nil => simp [hv]
  | cons a junk ih =>
    rw [List.cons_append, List.forall_mem_cons]
    by_cases ha : p a = true
    · rw [List.dropWhile_cons_of_pos ha, ih, and_iff_right ha]
    · rw [List.dropWhile_cons_of_neg ha]
      refine iff_of_false (fun he => ?_) fun hall => ha hall.1
      have hlen := congrArg List.length he
      simp only [List.length_cons, List.length_append] at hlen
      omega

theorem sampleCodec_delimits : sampleCodec.Delimits sampleRecord := by
  constructor
  · decide +kernel
  · intro junk _
    have hv : sampleText.dropWhile (· ∈ ([32, 9, 13] : List UInt8)) = sampleText := by
      decide +kernel
    have hblank : (junk ++ sampleText).dropWhile (· ∈ ([32, 9, 13] : List UInt8)) = sampleText ↔
        Blank junk := by
      rw [dropWhile_append_iff hv]
      simp only [Blank, decide_eq_true_eq]
    rw [← hblank]
    change (if _ then some sampleRecord else none) = some sampleRecord ↔ _
    split_ifs with hd
    · exact iff_of_true rfl hd
    · exact iff_of_false nofun hd

/-- A record is read after a blank that was left. -/
theorem append_read_blank :
    let files : Files := (∅ : Files).insert 0 (sampleText ++ [10, 32])
    ∃ pre post, (readAfter sampleCodec files 0 5).records = pre ++ post ∧
      (readAfter sampleCodec (append sampleCodec files sampleRecord) 0 5).records =
        pre ++ (appendEnd sampleCodec files sampleRecord, sampleRecord) :: post := by
  intro files
  exact (append_read_iff sampleCodec_delimits (by decide) (.inl rfl) (Nat.zero_le _)).mpr
    (by decide +kernel)

/-- A record that is appended to a torn line is lost with it. -/
theorem not_append_read : ¬∀ (codec : Codec) (files : Files) (r : SpoolRecord) (cursor now : ℕ),
    codec.Delimits r → r.tsMs < 2 ^ 64 → Readable (splitCursor cursor).1 now (dayOf r) →
      startOf cursor (dayOf r) ≤ (files[dayOf r]?.getD []).length →
        ∃ pre post, (readAfter codec files cursor now).records = pre ++ post ∧
          (readAfter codec (append codec files r) cursor now).records =
            pre ++ (appendEnd codec files r, r) :: post := by
  intro h
  let files : Files := (∅ : Files).insert 0 (sampleText.take 10)
  obtain ⟨pre, post, -, hnew⟩ := h sampleCodec files sampleRecord 0 5 sampleCodec_delimits
    (by decide) (.inl rfl) (Nat.zero_le _)
  have hnone : (readAfter sampleCodec (append sampleCodec files sampleRecord) 0 5).records = [] := by
    decide +kernel
  rw [hnone] at hnew
  simp at hnew

end Examples

end MultiAi.Spool
