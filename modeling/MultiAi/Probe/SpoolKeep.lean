import MultiAi.Probe.SpoolChain
import MultiAi.Probe.SpoolDir

/-! # Cleaning up the spool

A clean-up removes the files of old days, or some of them. Reads go on from the end of an earlier
read or, after a restart, from a record that an earlier read returned.
-/

namespace MultiAi.Spool

open Std

/-- Spool day files older than this many days are deleted. -/
def spoolKeepDays : ℕ := 7

/-- A read, and the days that were gone by then. -/
structure LateRead extends Read where
  gone : List ℕ

/-- All that was appended, with its own files as if none were removed, the files that are there,
the days that were removed, and the reads. -/
structure Kept where
  log : History
  files : Files
  removed : List ℕ
  reads : List LateRead

namespace Kept

variable (codec : Codec)

def start : Kept := ⟨History.start, ∅, [], []⟩

/-- What can happen next; a clean-up removes so many of the days that it is to remove. -/
inductive Event
  | append (r : SpoolRecord) (t : ℕ)
  | read (cursor now : ℕ)
  | cleanup (now removed : ℕ)

def play (s : Kept) : Event → Kept
  | .append r t => { s with log := s.log.append codec r t, files := Spool.append codec s.files r }
  | .read cursor now => { s with
      log := { s.log with clock := now }
      reads := s.reads ++ [⟨⟨cursor, now, readAfter codec s.files cursor now⟩, s.removed⟩] }
  | .cleanup now removed =>
    let days := (expired now spoolKeepDays s.files.keys).take removed
    { s with
      log := { s.log with clock := now }
      files := days.foldl (·.erase ·) s.files
      removed := s.removed ++ days }

/-- A cursor that a reader can have: none, the end of a read or that of a record it returned. -/
def Had (s : Kept) (cursor : ℕ) : Prop :=
  cursor = 0 ∨ ∃ rd ∈ s.reads, cursor = rd.result.endCursor ∨ ∃ x ∈ rd.result.records, cursor = x.1

def Allowed (s : Kept) : Event → Prop
  | .append r t => s.log.clock ≤ t ∧ r.tsMs ≤ t ∧ t ≤ r.tsMs + dayGraceMs ∧ dayOf r < 2 ^ 24 ∧
      s.log.fileEnd codec r < 2 ^ 40
  | .read cursor now => s.log.clock ≤ now ∧ s.Had cursor
  | .cleanup now _ => s.log.clock ≤ now

inductive Reachable : Kept → Prop
  | start : Reachable start
  | play {s : Kept} {e : Event} : Reachable s → s.Allowed codec e → Reachable (s.play codec e)

/-- The records of the days that are there. -/
def recs (s : Kept) (day : ℕ) : List SpoolRecord := if day ∈ s.removed then [] else s.log.recs day

/-- A read returned what lies after its cursor and up to its end cursor, but for the days that
were gone. -/
structure Exact (appended : List (ℕ × SpoolRecord)) (rd : LateRead) : Prop where
  le : rd.cursor ≤ rd.result.endCursor
  sorted : rd.result.records.Pairwise (·.1 < ·.1)
  mem : ∀ x, x ∈ rd.result.records ↔ x ∈ appended ∧ rd.cursor < x.1 ∧
    x.1 ≤ rd.result.endCursor ∧ dayOf x.2 ∉ rd.gone

/-- The end of a record of a day that does not grow by earlier stamps. -/
def Settles (s : Kept) (cursor : ℕ) : Prop :=
  cursor = 0 ∨ ∃ x ∈ s.log.appended, x.1 = cursor ∧
    (dayOf x.2 = 0 ∨ dayOf x.2 * dayMs + dayGraceMs ≤ s.log.clock)

structure Inv (s : Kept) : Prop where
  log : History.Inv codec s.log
  noReads : s.log.reads = []
  files : ∀ day, s.files[day]? = if day ∈ s.removed then none else s.log.files[day]?
  old : ∀ day ∈ s.removed, day + spoolKeepDays < s.log.clock / dayMs
  reads : ∀ rd ∈ s.reads, Exact s.log.appended rd ∧ rd.gone ⊆ s.removed
  ends : ∀ rd ∈ s.reads, s.Settles rd.result.endCursor
  returned : ∀ rd ∈ s.reads, ∀ x ∈ s.log.appended, x.1 ≤ rd.result.endCursor →
    (∃ rd' ∈ s.reads, x ∈ rd'.result.records) ∨ dayOf x.2 ∈ s.removed

end Kept

section Gone

variable {codec : Codec} {files : Files} {recs : ℕ → List SpoolRecord} {cursor now : ℕ}

/-- Where the day of the cursor is not there, the offset does not matter. -/
theorem readDays_off {curDay off : ℕ} {days : List ℕ} (h : curDay ∉ days) (out : ReadResult) :
    readDays codec files curDay off now days out = readDays codec files curDay 0 now days out := by
  induction days generalizing out with
  | nil => rfl
  | cons day days ih =>
    rw [List.mem_cons, not_or] at h
    simp only [readDays, if_neg (Ne.symm h.1), ih h.2]

/-- A cursor of a day that is there, or of one that is gone. -/
def Follows (codec : Codec) (recs : ℕ → List SpoolRecord) (cursor : ℕ) : Prop :=
  Aligned codec recs cursor ∨ recs (splitCursor cursor).1 = []

/-- The start of the cursor's day. -/
def dayStart (cursor : ℕ) : ℕ := (splitCursor cursor).1 * 2 ^ 40

theorem splitCursor_dayStart (cursor : ℕ) :
    splitCursor (dayStart cursor) = ((splitCursor cursor).1, 0) := by
  rw [splitCursor_eq, dayStart]
  exact Prod.ext (by simp) (by simp)

/-- A read in a day that is gone returns what one from the start of the day returns. -/
theorem readAfter_gone (h : Holds codec files recs) (hgone : recs (splitCursor cursor).1 = []) :
    (readAfter codec files cursor now).records =
        (readAfter codec files (dayStart cursor) now).records ∧
      (readAfter codec files cursor now).endCursor =
        lastCursor cursor (readAfter codec files cursor now).records := by
  have hcur : recs (splitCursor cursor).1 = [] ++ [] := hgone
  have hnot : (splitCursor cursor).1 ∉ files.keys.filter ((splitCursor cursor).1 ≤ ·) := by
    intro hm
    exact (mem_keys_iff h _).mp (List.mem_filter.mp hm).1 hgone
  have hdays : ∀ day ∈ files.keys.filter ((splitCursor cursor).1 ≤ ·),
      (splitCursor cursor).1 ≤ day ∧ day < 2 ^ 24 := by
    intro day hday
    obtain ⟨hk, hle⟩ := List.mem_filter.mp hday
    exact ⟨of_decide_eq_true hle, h.day_lt day ((mem_keys_iff h day).mp hk)⟩
  obtain ⟨es, hread⟩ : ∃ es, ∀ out, readDays codec files (splitCursor cursor).1 0 now
      (files.keys.filter ((splitCursor cursor).1 ≤ ·)) out = out.add es :=
    ⟨_, readDays_eq h hcur hdays ((keys_sorted files).filter _)⟩
  have hfrom : ∀ c off, splitCursor c = ((splitCursor cursor).1, off) →
      readAfter codec files c now = ReadResult.add ⟨[], 0, c⟩ es := by
    intro c off hs
    rw [readAfter, hs]
    exact (readDays_off hnot _).trans (hread _)
  rw [hfrom cursor _ rfl, hfrom (dayStart cursor) 0 (splitCursor_dayStart cursor)]
  exact ⟨rfl, rfl⟩

theorem aligned_dayStart (hgone : recs (splitCursor cursor).1 = []) :
    Aligned codec recs (dayStart cursor) := by
  refine ⟨[], [], ?_, ?_⟩
  · rw [splitCursor_dayStart]
    exact hgone
  · rw [splitCursor_dayStart]
    rfl

/-- Where the day of the cursor is gone, the cursor and its start are the same bound. -/
theorem dayStart_lt_iff (h : Holds codec files recs) (hgone : recs (splitCursor cursor).1 = [])
    {day : ℕ} {x : ℕ × SpoolRecord} (hx : x ∈ entries codec day 0 (recs day)) :
    dayStart cursor < x.1 ↔ cursor < x.1 := by
  obtain ⟨o, hc, hpos, ho, hne⟩ := h.cursor_eq hx
  have hday : day ≠ (splitCursor cursor).1 := by
    rintro rfl
    exact hne hgone
  rw [splitCursor_eq] at hday
  simp only at hday
  rw [dayStart, splitCursor_eq]
  simp only
  omega

theorem Follows.sorted (h : Holds codec files recs) (hc : Follows codec recs cursor) :
    (readAfter codec files cursor now).records.Pairwise (·.1 < ·.1) := by
  rcases hc with ha | hgone
  · exact readAfter_sorted h ha
  · rw [(readAfter_gone h hgone).1]
    exact readAfter_sorted h (aligned_dayStart hgone)

theorem Follows.end (h : Holds codec files recs) (hc : Follows codec recs cursor) :
    (readAfter codec files cursor now).endCursor =
      lastCursor cursor (readAfter codec files cursor now).records := by
  rcases hc with ha | hgone
  · exact (readAfter_end h ha).2
  · exact (readAfter_gone h hgone).2

theorem Follows.mem (h : Holds codec files recs) (hc : Follows codec recs cursor)
    {x : ℕ × SpoolRecord} : x ∈ (readAfter codec files cursor now).records ↔
      ∃ day, x ∈ entries codec day 0 (recs day) ∧ cursor < x.1 ∧
        Readable (splitCursor cursor).1 now day := by
  rcases hc with ha | hgone
  · exact mem_readAfter h ha
  · rw [(readAfter_gone h hgone).1, mem_readAfter h (aligned_dayStart hgone), splitCursor_dayStart]
    constructor
    · rintro ⟨day, hx, hlt, hr⟩
      exact ⟨day, hx, (dayStart_lt_iff h hgone hx).mp hlt, hr⟩
    · rintro ⟨day, hx, hlt, hr⟩
      exact ⟨day, hx, (dayStart_lt_iff h hgone hx).mpr hlt, hr⟩

/-- A read returns the entries after its cursor and up to its end cursor. -/
theorem Follows.mem_iff (h : Holds codec files recs) (hc : Follows codec recs cursor)
    {x : ℕ × SpoolRecord} : x ∈ (readAfter codec files cursor now).records ↔
      (∃ day, x ∈ entries codec day 0 (recs day)) ∧ cursor < x.1 ∧
        x.1 ≤ (readAfter codec files cursor now).endCursor := by
  rcases hc with ha | hgone
  · exact mem_readAfter_iff h ha
  obtain ⟨hrec, hend⟩ : _ ∧ (readAfter codec files cursor now).endCursor = _ :=
    readAfter_gone h hgone
  have ha : Aligned codec recs (dayStart cursor) := aligned_dayStart hgone
  have hend' : (readAfter codec files (dayStart cursor) now).endCursor = _ :=
    (readAfter_end h ha).2
  rw [← hrec] at hend'
  rw [hrec, mem_readAfter_iff h ha, hend, hend']
  -- The two ends are the same unless nothing was read.
  rcases lastCursor_cases cursor (readAfter codec files cursor now).records with
    ⟨hnil, -⟩ | ⟨e, he, -⟩
  · rw [hnil]
    simp only [lastCursor, List.getLast?_nil, Option.map_none, Option.getD_none]
    constructor <;> rintro ⟨-, hlt, hle⟩ <;> omega
  · have hne := List.ne_nil_of_mem he
    have hsame : lastCursor (dayStart cursor) (readAfter codec files cursor now).records =
        lastCursor cursor (readAfter codec files cursor now).records := by
      simp [lastCursor, List.getLast?_eq_some_getLast hne]
    rw [hsame]
    constructor
    · rintro ⟨⟨day, hx⟩, hlt, hle⟩
      exact ⟨⟨day, hx⟩, (dayStart_lt_iff h hgone hx).mp hlt, hle⟩
    · rintro ⟨⟨day, hx⟩, hlt, hle⟩
      exact ⟨⟨day, hx⟩, (dayStart_lt_iff h hgone hx).mpr hlt, hle⟩

end Gone

namespace Kept

section Step

variable {codec : Codec} {s : Kept} {x y : ℕ × SpoolRecord} {r : SpoolRecord} {t cursor now n : ℕ}

theorem Inv.start : Inv codec start where
  log := History.init_inv
  noReads := rfl
  files _ := by simp [Kept.start, History.start]
  old _ h := by cases h
  reads _ h := by cases h
  ends _ h := by cases h
  returned _ h := by cases h

theorem Inv.holds (h : Inv codec s) : Holds codec s.files s.recs where
  file day := by
    rw [h.files, recs]
    by_cases hd : day ∈ s.removed
    · rw [if_pos hd, if_pos hd, if_pos rfl]
    · rw [if_neg hd, if_neg hd]
      exact h.log.holds.file day
  faithful day r hr := by
    rw [recs] at hr
    split_ifs at hr
    · cases hr
    · exact h.log.holds.faithful day r hr
  day_lt day hne := by
    rw [recs] at hne
    split_ifs at hne
    · exact (hne rfl).elim
    · exact h.log.holds.day_lt day hne
  length_lt day := by
    rw [recs]
    split_ifs
    · exact Nat.two_pow_pos 40
    · exact h.log.holds.length_lt day

/-- The entries of the files that are there are those of the days that were not removed. -/
theorem Inv.mem_entries_iff (h : Inv codec s) : (∃ day, x ∈ entries codec day 0 (s.recs day)) ↔
    x ∈ s.log.appended ∧ dayOf x.2 ∉ s.removed := by
  constructor
  · rintro ⟨day, hx⟩
    rw [recs] at hx
    split_ifs at hx with hd
    · cases hx
    · rw [← h.log.entries] at hx
      obtain ⟨hx, hday⟩ := List.mem_filter.mp hx
      exact ⟨hx, (of_decide_eq_true hday) ▸ hd⟩
  · rintro ⟨hx, hd⟩
    exact ⟨_, by rw [recs, if_neg hd]; exact h.log.mem_entries hx⟩

theorem Inv.cursor_eq (h : Inv codec s) (hx : x ∈ s.log.appended) :
    ∃ o, x.1 = dayOf x.2 * 2 ^ 40 + o ∧ 0 < o ∧ o < 2 ^ 40 := by
  obtain ⟨o, hc, hpos, ho, -⟩ := h.log.holds.cursor_eq (h.log.mem_entries hx)
  exact ⟨o, hc, hpos, ho⟩

/-- The cursors that a reader can have. -/
theorem Inv.settles (h : Inv codec s) (hc : s.Had cursor) : s.Settles cursor := by
  rcases hc with h0 | ⟨rd, hrd, rfl | ⟨x, hx, rfl⟩⟩
  · exact .inl h0
  · exact h.ends rd hrd
  obtain ⟨hx, -, hle, -⟩ := ((h.reads rd hrd).1.mem x).mp hx
  obtain ⟨o, hxc, hpos, ho⟩ := h.cursor_eq hx
  rcases h.ends rd hrd with h0 | ⟨e, he, hend, hday⟩
  · omega
  · obtain ⟨o', hec, -, ho'⟩ := h.cursor_eq he
    have hdays : dayOf x.2 ≤ dayOf e.2 := by omega
    refine .inr ⟨x, hx, rfl, ?_⟩
    rcases hday with h0 | hs
    · exact .inl (by omega)
    · exact .inr (Nat.le_trans (by rw [dayMs]; omega) hs)

theorem Inv.follows (h : Inv codec s) (hc : s.Settles cursor) : Follows codec s.recs cursor := by
  rcases hc with rfl | ⟨x, hx, rfl, -⟩
  · exact .inl ⟨[], _, rfl, rfl⟩
  obtain ⟨o, hxc, hpos, ho⟩ := h.cursor_eq hx
  have hsplit : splitCursor x.1 = (dayOf x.2, o) := by
    rw [splitCursor_eq, hxc]
    exact Prod.ext (by omega) (by omega)
  by_cases hd : dayOf x.2 ∈ s.removed
  · refine .inr ?_
    rw [hsplit, recs, if_pos hd]
  · obtain ⟨pre, post, hrs, -, hcur⟩ := Spool.mem_entries (h.log.mem_entries hx)
    have hlen := h.log.holds.length_lt (dayOf x.2)
    have hne : s.log.recs (dayOf x.2) ≠ [] := by
      obtain ⟨-, -, -, -, hne⟩ := h.log.holds.cursor_eq (h.log.mem_entries hx)
      exact hne
    rw [hrs, text_append_length] at hlen
    rw [Nat.zero_add, makeCursor_eq (h.log.holds.day_lt _ hne) (by omega)] at hcur
    refine .inl ⟨pre, post, ?_, ?_⟩
    · rw [hsplit, recs, if_neg hd]
      exact hrs
    · rw [hsplit]
      simp only
      omega

/-- Nothing is appended at or before a cursor that a reader can have. -/
theorem Inv.lt_cursorFor (h : Inv codec s) (hc : s.Settles cursor) (hclock : s.log.clock ≤ t)
    (ht : t ≤ r.tsMs + dayGraceMs) (hday : dayOf r < 2 ^ 24)
    (hlen : s.log.fileEnd codec r < 2 ^ 40) : cursor < s.log.cursorFor codec r := by
  rw [History.cursorFor, makeCursor_eq hday hlen]
  rw [h.log.fileEnd_eq, text_append_length] at hlen ⊢
  have hpos : 0 < (text codec [r]).length := text_length_pos (List.cons_ne_nil r [])
  rcases hc with rfl | ⟨y, hy, rfl, hyday⟩
  · omega
  have hentry := h.log.mem_entries hy
  obtain ⟨o, hyc, -, ho⟩ := h.cursor_eq hy
  have hle : dayOf y.2 ≤ dayOf r := by
    rcases hyday with h0 | hg
    · omega
    · rw [dayOf, dayOf, dayMs] at *
      omega
  rcases Nat.lt_or_eq_of_le hle with hlt | heq
  · omega
  · rw [heq] at hentry hyc
    have hb := (entries_bounds hday (by omega) hentry).2
    rw [Nat.zero_add, makeCursor_eq hday (by omega)] at hb
    omega

/-- A day that was removed is too old to be appended to. -/
theorem Inv.not_removed (h : Inv codec s) (hclock : s.log.clock ≤ t)
    (ht : t ≤ r.tsMs + dayGraceMs) : dayOf r ∉ s.removed := by
  intro hd
  have hold := h.old _ hd
  rw [dayOf, dayMs, spoolKeepDays] at hold
  rw [dayGraceMs] at ht
  omega

theorem Settles.mono {s' : Kept} (hc : s.Settles cursor) (happ : s.log.appended ⊆ s'.log.appended)
    (hclock : s.log.clock ≤ s'.log.clock) : s'.Settles cursor := by
  refine hc.imp_right ?_
  rintro ⟨x, hx, he, hd⟩
  exact ⟨x, happ hx, he, hd.imp_right fun hg => Nat.le_trans hg hclock⟩

/-- The clock alone goes on. -/
theorem Inv.tick (h : Inv codec s) (hclock : s.log.clock ≤ now) :
    Inv codec { s with log := { s.log with clock := now } } where
  log := {
    holds := h.log.holds
    entries := h.log.entries
    reads := by simp [h.noReads]
    ends := by simp [h.noReads]
    returned := by simp [h.noReads]
    nodup := h.log.nodup }
  noReads := h.noReads
  files := h.files
  old day hd := Nat.lt_of_lt_of_le (h.old day hd) (Nat.div_le_div_right hclock)
  reads := h.reads
  ends rd hrd := (h.ends rd hrd).mono (fun _ hx => hx) hclock
  returned := h.returned

theorem Inv.append (h : Inv codec s) (hr : codec.Faithful r) (hclock : s.log.clock ≤ t)
    (ht : t ≤ r.tsMs + dayGraceMs) (hday : dayOf r < 2 ^ 24)
    (hlen : s.log.fileEnd codec r < 2 ^ 40) : Inv codec (s.play codec (.append r t)) where
  log := h.log.append hr hclock ht hday hlen
  noReads := h.noReads
  files day := by
    have hnot := h.not_removed (r := r) hclock ht
    change (Spool.append codec s.files r)[day]? =
      if day ∈ s.removed then none else (Spool.append codec s.log.files r)[day]?
    rw [Spool.append, Spool.append, ExtTreeMap.getElem?_insert, ExtTreeMap.getElem?_insert,
      h.files (dayOf r), if_neg hnot, h.files day]
    simp only [LawfulEqCmp.compare_eq_iff_eq]
    split_ifs with heq hd
    · exact (hnot (heq ▸ hd)).elim
    · rfl
    · rfl
    · rfl
  old day hd := Nat.lt_of_lt_of_le (h.old day hd) (Nat.div_le_div_right hclock)
  reads rd hrd := by
    obtain ⟨he, hgone⟩ := h.reads rd hrd
    refine ⟨⟨he.le, he.sorted, fun x => (he.mem x).trans ?_⟩, hgone⟩
    have hlt := h.lt_cursorFor (h.ends rd hrd) hclock ht hday hlen
    constructor
    · rintro ⟨hx, hb⟩
      exact ⟨List.mem_append_left _ hx, hb⟩
    · rintro ⟨hx, hb⟩
      rcases List.mem_append.mp hx with hx | hx
      · exact ⟨hx, hb⟩
      · rw [List.mem_singleton.mp hx] at hb
        exact absurd hb.2.1 (Nat.not_le_of_lt hlt)
  ends rd hrd := (h.ends rd hrd).mono (List.subset_append_left _ _) hclock
  returned rd hrd x hx hle := by
    rcases List.mem_append.mp hx with hx | hx
    · exact h.returned rd hrd x hx hle
    · rw [List.mem_singleton.mp hx] at hle
      exact absurd hle (Nat.not_le_of_lt
        (h.lt_cursorFor (h.ends rd hrd) hclock ht hday hlen))

theorem Inv.exact_read (h : Inv codec s) (hc : s.Had cursor) :
    Exact s.log.appended ⟨⟨cursor, now, readAfter codec s.files cursor now⟩, s.removed⟩ where
  le := by
    have hf := h.follows (h.settles hc)
    change _ ≤ (readAfter codec s.files cursor now).endCursor
    rw [hf.end h.holds]
    rcases lastCursor_cases cursor (readAfter codec s.files cursor now).records with
      ⟨-, he⟩ | ⟨e, hmem, he⟩
    · exact he.ge
    · obtain ⟨-, -, hlt, -⟩ := (hf.mem h.holds).mp hmem
      exact he ▸ hlt.le
  sorted := (h.follows (h.settles hc)).sorted h.holds
  mem x := by
    refine ((h.follows (h.settles hc)).mem_iff h.holds).trans ?_
    rw [h.mem_entries_iff]
    exact ⟨fun ⟨⟨hx, hd⟩, hlt, hle⟩ => ⟨hx, hlt, hle, hd⟩,
      fun ⟨hx, hlt, hle, hd⟩ => ⟨⟨hx, hd⟩, hlt, hle⟩⟩

/-- The end of a read is the cursor that it started from, or that of a record of a day that does
not grow. -/
theorem Inv.read_settles (h : Inv codec s) (hclock : s.log.clock ≤ now) (hc : s.Had cursor) :
    (s.play codec (.read cursor now)).Settles (readAfter codec s.files cursor now).endCursor := by
  have hold : (s.play codec (.read cursor now)).Settles cursor :=
    (h.settles hc).mono (fun _ hx => hx) hclock
  have hf := h.follows (h.settles hc)
  rw [hf.end h.holds]
  rcases lastCursor_cases cursor (readAfter codec s.files cursor now).records with
    ⟨-, he⟩ | ⟨e, hmem, he⟩
  · rwa [he]
  obtain ⟨day, hday, -, hr⟩ := (hf.mem h.holds).mp hmem
  obtain ⟨hx, hd⟩ := h.mem_entries_iff.mp ⟨day, hday⟩
  obtain ⟨o, hec, -, ho⟩ := h.cursor_eq hx
  obtain ⟨o', hec', -, ho', hne⟩ := h.holds.cursor_eq hday
  have heq : dayOf e.2 = day := by omega
  refine .inr ⟨e, hx, he.symm, ?_⟩
  rw [heq]
  rcases hr with hr | ⟨-, hs⟩
  · -- Only the day in which the read starts is read before it settles.
    rcases hold with rfl | ⟨y, hy, rfl, hyday⟩
    · exact .inl hr
    · obtain ⟨o'', hyc, -, ho''⟩ := h.cursor_eq hy
      rw [splitCursor_eq] at hr
      simp only at hr
      have hyd : dayOf y.2 = day := by omega
      exact hyd ▸ hyday
  · exact .inr ((settled_iff (h.holds.day_lt day hne) now).mp hs)

theorem Inv.read (h : Inv codec s) (hclock : s.log.clock ≤ now) (hc : s.Had cursor) :
    Inv codec (s.play codec (.read cursor now)) where
  log := (h.tick hclock).log
  noReads := h.noReads
  files := h.files
  old := (h.tick hclock).old
  reads rd hrd := by
    rcases List.mem_append.mp hrd with hrd | hrd
    · exact h.reads rd hrd
    · rw [List.mem_singleton.mp hrd]
      exact ⟨h.exact_read hc, List.Subset.refl _⟩
  ends rd hrd := by
    rcases List.mem_append.mp hrd with hrd | hrd
    · exact (h.ends rd hrd).mono (fun _ hx => hx) hclock
    · rw [List.mem_singleton.mp hrd]
      exact h.read_settles hclock hc
  returned rd hrd x hx hle := by
    have hold : ∀ rd ∈ s.reads, x.1 ≤ rd.result.endCursor →
        (∃ rd' ∈ (s.play codec (.read cursor now)).reads, x ∈ rd'.result.records) ∨
          dayOf x.2 ∈ s.removed := by
      intro rd hrd hle
      refine (h.returned rd hrd x hx hle).imp_left ?_
      rintro ⟨rd', h', hx'⟩
      exact ⟨rd', List.mem_append_left _ h', hx'⟩
    rcases List.mem_append.mp hrd with hrd | hrd
    · exact hold rd hrd hle
    rw [List.mem_singleton] at hrd
    subst hrd
    rcases Nat.lt_or_ge cursor x.1 with hlt | hge
    · by_cases hd : dayOf x.2 ∈ s.removed
      · exact .inr hd
      · refine .inl ⟨_, List.mem_append_right _ (List.mem_singleton_self _), ?_⟩
        exact ((h.exact_read hc).mem x).mpr ⟨hx, hlt, hle, hd⟩
    · obtain ⟨o, hcx, hpos, -⟩ := h.cursor_eq hx
      rcases hc with rfl | ⟨rd', hrd', rfl | ⟨y, hy, rfl⟩⟩
      · omega
      · exact hold _ hrd' hge
      · exact hold _ hrd' (Nat.le_trans hge (((h.reads rd' hrd').1.mem y).mp hy).2.2.1)

/-- What a clean-up removes, where days do not wrap around. -/
theorem Inv.mem_expired (h : Inv codec s) {day : ℕ}
    (hd : day ∈ expired now spoolKeepDays s.files.keys) : day + spoolKeepDays < now / dayMs := by
  obtain ⟨hk, hlt⟩ := List.mem_filter.mp hd
  have hday := h.holds.day_lt day ((mem_keys_iff h.holds day).mp hk)
  have hlt : (day + spoolKeepDays) % 2 ^ 64 < now / dayMs := of_decide_eq_true hlt
  rw [spoolKeepDays] at hlt ⊢
  omega

theorem getElem?_foldl_erase (files : Files) (days : List ℕ) (day : ℕ) :
    (days.foldl (·.erase ·) files)[day]? = if day ∈ days then none else files[day]? := by
  induction days generalizing files with
  | nil => simp
  | cons d days ih =>
    rw [List.foldl_cons, ih, ExtTreeMap.getElem?_erase]
    simp only [LawfulEqCmp.compare_eq_iff_eq, List.mem_cons]
    by_cases hd : day ∈ days
    · simp [hd]
    · by_cases heq : d = day
      · simp [heq]
      · simp [hd, heq, Ne.symm heq]

theorem Inv.cleanup (h : Inv codec s) (hclock : s.log.clock ≤ now) :
    Inv codec (s.play codec (.cleanup now n)) where
  log := (h.tick hclock).log
  noReads := h.noReads
  files day := by
    change (List.foldl _ s.files _)[day]? = _
    rw [getElem?_foldl_erase, h.files day]
    simp only [play, List.mem_append]
    split_ifs <;> first | rfl | tauto
  old day hd := by
    rcases List.mem_append.mp hd with hd | hd
    · exact (h.tick hclock).old day hd
    · exact h.mem_expired (List.mem_of_mem_take hd)
  reads rd hrd :=
    ⟨(h.reads rd hrd).1, fun _ hd => List.mem_append_left _ ((h.reads rd hrd).2 hd)⟩
  ends rd hrd := (h.ends rd hrd).mono (fun _ hx => hx) hclock
  returned rd hrd x hx hle := (h.returned rd hrd x hx hle).imp_right (List.mem_append_left _)

end Step

variable {codec : Codec}

theorem Reachable.inv {s : Kept} (h : Reachable codec s)
    (hf : ∀ x ∈ s.log.appended, codec.Faithful x.2) : Inv codec s := by
  induction h with
  | start => exact .start
  | @play s e _ ha ih =>
    cases e with
    | append r t =>
      obtain ⟨hclock, -, ht, hday, hlen⟩ := ha
      have hold := ih fun x hx => hf x (List.mem_append_left _ hx)
      have hnew := hf _ (List.mem_append_right _ (List.mem_singleton_self _))
      exact hold.append hnew hclock ht hday hlen
    | read cursor now => exact (ih hf).read ha.1 ha.2
    | cleanup now n => exact (ih hf).cleanup ha

/-- Reads that follow each other: each starts where the one before it ended. -/
inductive Chain (reads : List LateRead) : ℕ → List LateRead → ℕ → Prop
  | nil (cursor : ℕ) : Chain reads cursor [] cursor
  | cons {rd : LateRead} {rds : List LateRead} {cursor : ℕ} : rd ∈ reads →
      Chain reads rd.result.endCursor rds cursor → Chain reads rd.cursor (rd :: rds) cursor

/-- Chained reads return what lies between their ends, once and in order, but for days that were
removed. -/
theorem Chain.exact {s : Kept} (h : Inv codec s) {c₀ c : ℕ} {rds : List LateRead}
    (hc : Chain s.reads c₀ rds c) :
    c₀ ≤ c ∧ (rds.flatMap (·.result.records)).Pairwise (·.1 < ·.1) ∧
      (∀ x ∈ rds.flatMap (·.result.records), x ∈ s.log.appended ∧ c₀ < x.1 ∧ x.1 ≤ c) ∧
      ∀ x ∈ s.log.appended, c₀ < x.1 → x.1 ≤ c →
        x ∈ rds.flatMap (·.result.records) ∨ dayOf x.2 ∈ s.removed := by
  induction hc with
  | nil c =>
    refine ⟨Nat.le_refl c, .nil, fun x hx => (List.not_mem_nil hx).elim, fun x _ hlt hle => ?_⟩
    omega
  | @cons rd rds c hrd hc ih =>
    obtain ⟨hle, hsorted, hsound, hcomplete⟩ := ih
    obtain ⟨he, hgone⟩ := h.reads rd hrd
    have hstart := he.le
    refine ⟨hstart.trans hle, ?_, fun x hx => ?_, fun x hx hlt hxc => ?_⟩
    · rw [List.flatMap_cons, List.pairwise_append]
      refine ⟨he.sorted, hsorted, fun a ha b hb => ?_⟩
      have ha := ((he.mem a).mp ha).2.2.1
      have hb := (hsound b hb).2.1
      omega
    · rw [List.flatMap_cons, List.mem_append] at hx
      rcases hx with hx | hx
      · obtain ⟨hx, h₁, h₂, -⟩ := (he.mem x).mp hx
        exact ⟨hx, h₁, by omega⟩
      · obtain ⟨hx, h₁, h₂⟩ := hsound x hx
        exact ⟨hx, by omega, h₂⟩
    · rw [List.flatMap_cons, List.mem_append]
      rcases Nat.lt_or_ge rd.result.endCursor x.1 with hafter | hup
      · exact (hcomplete x hx hafter hxc).imp_left .inr
      · by_cases hd : dayOf x.2 ∈ rd.gone
        · exact .inr (hgone hd)
        · exact .inl (.inl ((he.mem x).mpr ⟨hx, hlt, hup, hd⟩))

/-- A read returns the records whose day has settled and is there, unless an earlier one did. -/
theorem Inv.settled {s : Kept} (h : Inv codec s) {cursor now : ℕ} (hc : s.Had cursor)
    {x : ℕ × SpoolRecord} (hx : x ∈ s.log.appended)
    (hnow : dayOf x.2 * dayMs + dayGraceMs ≤ now) :
    x ∈ (readAfter codec s.files cursor now).records ∨ (∃ rd ∈ s.reads, x ∈ rd.result.records) ∨
      dayOf x.2 ∈ s.removed := by
  by_cases hd : dayOf x.2 ∈ s.removed
  · exact .inr (.inr hd)
  rcases Nat.lt_or_ge cursor x.1 with hlt | hge
  · have hentry := h.log.mem_entries hx
    obtain ⟨-, -, -, -, hne⟩ := h.log.holds.cursor_eq hentry
    obtain ⟨o, hcx, -, ho⟩ := h.cursor_eq hx
    refine .inl (((h.follows (h.settles hc)).mem h.holds).mpr ⟨dayOf x.2, ?_, hlt, ?_⟩)
    · rwa [recs, if_neg hd]
    · rw [splitCursor_eq, Readable, settled_iff (h.log.holds.day_lt _ hne)]
      simp only
      omega
  · obtain ⟨o, hcx, hpos, -⟩ := h.cursor_eq hx
    rcases hc with rfl | ⟨rd, hrd, rfl | ⟨y, hy, rfl⟩⟩
    · omega
    · exact .inr (h.returned rd hrd x hx hge)
    · exact .inr (h.returned rd hrd x hx
        (Nat.le_trans hge (((h.reads rd hrd).1.mem y).mp hy).2.2.1))

/-- A record is read, its file removed nine days later, and the reader goes on from it. -/
def midnightKept : Kept :=
  (((start.play History.midnightCodec (.append History.midnight 86400010)).play
    History.midnightCodec (.read 0 86400020)).play
    History.midnightCodec (.cleanup 777600000 1)).play
    History.midnightCodec (.read 80 777600005)

theorem midnightKept_reachable : Reachable History.midnightCodec midnightKept := by
  refine .play (.play (.play (.play .start ⟨?_, ?_, ?_, ?_, ?_⟩) ⟨?_, .inl rfl⟩) ?_)
    ⟨?_, .inr ⟨_, List.mem_singleton_self _, .inl ?_⟩⟩
  case refine_7 =>
    change 86400020 ≤ 777600000
    decide
  all_goals decide

end Kept

end MultiAi.Spool
