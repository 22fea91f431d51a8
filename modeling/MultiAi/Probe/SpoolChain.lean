import MultiAi.Probe.Spool
import Mathlib.Order.Nat

/-! # Chained reads of the spool

Hooks append records and readers read them on one clock. Each read continues after
an earlier one, or starts over from the beginning.
-/

namespace MultiAi.Spool

open Std

structure Read where
  cursor : ℕ
  now : ℕ
  result : ReadResult

/-- The spool, the records that were appended with their cursors, and the reads
that were made, each in order. -/
structure History where
  files : Files
  appended : List (ℕ × SpoolRecord)
  reads : List Read
  clock : ℕ

namespace History

variable (codec : Codec)

def start : History := ⟨∅, [], [], 0⟩

def fileEnd (s : History) (r : SpoolRecord) : ℕ :=
  ((s.files[dayOf r]?.getD []) ++ line codec r).length

def cursorFor (s : History) (r : SpoolRecord) : ℕ :=
  makeCursor (dayOf r) (s.fileEnd codec r)

def append (s : History) (r : SpoolRecord) (t : ℕ) : History where
  files := Spool.append codec s.files r
  appended := s.appended ++ [(s.cursorFor codec r, r)]
  reads := s.reads
  clock := t

def read (s : History) (cursor now : ℕ) : History where
  files := s.files
  appended := s.appended
  reads := s.reads ++ [⟨cursor, now, readAfter codec s.files cursor now⟩]
  clock := now

/-- What can happen next: an append of a record or a read, at a time of the clock. -/
inductive Event
  | append (r : SpoolRecord) (t : ℕ)
  | read (cursor now : ℕ)

def play (s : History) : Event → History
  | .append r t => s.append codec r t
  | .read cursor now => s.read codec cursor now

/-- A record is appended at most the grace period after its stamp. A read starts
at the beginning, or at the end cursor of an earlier read. -/
def Allowed (s : History) : Event → Prop
  | .append r t => s.clock ≤ t ∧ r.tsMs ≤ t ∧ t ≤ r.tsMs + dayGraceMs ∧ dayOf r < 2 ^ 24 ∧
      s.fileEnd codec r < 2 ^ 40
  | .read cursor now => s.clock ≤ now ∧
      (cursor = 0 ∨ ∃ rd ∈ s.reads, cursor = rd.result.endCursor)

inductive Reachable : History → Prop
  | start : Reachable start
  | play {s : History} {e : Event} : Reachable s → s.Allowed codec e → Reachable (s.play codec e)

/-- Reads that follow each other from one cursor to another. -/
inductive Chain (reads : List Read) : ℕ → List Read → ℕ → Prop
  | nil (cursor : ℕ) : Chain reads cursor [] cursor
  | cons {rd : Read} {rds : List Read} {cursor : ℕ} : rd ∈ reads →
      Chain reads rd.result.endCursor rds cursor → Chain reads rd.cursor (rd :: rds) cursor

/-- The records of a day, in order. -/
def recs (s : History) (day : ℕ) : List SpoolRecord :=
  (s.appended.filter (dayOf ·.2 = day)).map Prod.snd

/-- A read returned what lies after its cursor and up to its end cursor. -/
structure Exact (appended : List (ℕ × SpoolRecord)) (rd : Read) : Prop where
  le : rd.cursor ≤ rd.result.endCursor
  sorted : rd.result.records.Pairwise (·.1 < ·.1)
  mem : ∀ x, x ∈ rd.result.records ↔
    x ∈ appended ∧ rd.cursor < x.1 ∧ x.1 ≤ rd.result.endCursor

structure Inv (s : History) : Prop where
  holds : Holds codec s.files s.recs
  entries : ∀ day,
    s.appended.filter (dayOf ·.2 = day) = Spool.entries codec day 0 (s.recs day)
  reads : ∀ rd ∈ s.reads, Exact s.appended rd
  /-- A read does not end in a day that still grows by earlier stamps. -/
  ends : ∀ rd ∈ s.reads, rd.result.endCursor = 0 ∨ ∃ x ∈ s.appended, x.1 = rd.result.endCursor ∧
    (dayOf x.2 = 0 ∨ dayOf x.2 * dayMs + dayGraceMs ≤ s.clock)
  returned : ∀ rd ∈ s.reads, ∀ x ∈ s.appended, x.1 ≤ rd.result.endCursor →
    ∃ rd' ∈ s.reads, x ∈ rd'.result.records
  nodup : (s.appended.map Prod.fst).Nodup

variable {codec}

section Step

variable {s : History} {x y : ℕ × SpoolRecord} {r : SpoolRecord} {t cursor now : ℕ}

theorem Inv.mem_entries (h : Inv codec s) (hx : x ∈ s.appended) :
    x ∈ Spool.entries codec (dayOf x.2) 0 (s.recs (dayOf x.2)) := by
  rw [← h.entries, List.mem_filter]
  exact ⟨hx, by simp⟩

theorem Inv.mem_appended_iff (h : Inv codec s) :
    x ∈ s.appended ↔ ∃ day, x ∈ Spool.entries codec day 0 (s.recs day) := by
  constructor
  · exact fun hx => ⟨_, h.mem_entries hx⟩
  · rintro ⟨day, hx⟩
    rw [← h.entries] at hx
    exact (List.mem_filter.mp hx).1

theorem init_inv : Inv codec start where
  holds := by
    refine ⟨fun day => ?_, fun day r hr => ?_, fun day hne => ?_, fun day => ?_⟩
    · exact ExtTreeMap.getElem?_empty
    · cases hr
    · exact (hne rfl).elim
    · exact Nat.two_pow_pos 40
  entries _ := rfl
  reads _ h := by cases h
  ends _ h := by cases h
  returned _ h := by cases h
  nodup := .nil

theorem recs_append (day : ℕ) : (s.append codec r t).recs day =
    if dayOf r = day then s.recs day ++ [r] else s.recs day := by
  rw [recs, append, List.filter_append, List.map_append, ← recs]
  split_ifs with he
  · simp [he]
  · simp [he]

theorem Inv.fileEnd_eq (h : Inv codec s) (r : SpoolRecord) :
    s.fileEnd codec r = (text codec (s.recs (dayOf r) ++ [r])).length := by
  rw [fileEnd, h.holds.getD, text_append]
  simp [text]

/-- A record is appended beyond the end of every earlier read. -/
theorem Inv.end_lt (h : Inv codec s) (hclock : s.clock ≤ t)
    (ht : t ≤ r.tsMs + dayGraceMs) (hday : dayOf r < 2 ^ 24) (hlen : s.fileEnd codec r < 2 ^ 40)
    {rd : Read} (hrd : rd ∈ s.reads) : rd.result.endCursor < s.cursorFor codec r := by
  rw [cursorFor, makeCursor_eq hday hlen]
  rw [h.fileEnd_eq, text_append_length] at hlen ⊢
  have hpos : 0 < (text codec [r]).length := text_length_pos (List.cons_ne_nil r [])
  rcases h.ends rd hrd with he | ⟨y, hy, he, hyday⟩
  · omega
  · have hy := h.mem_entries hy
    obtain ⟨o, hc, -, ho, hne⟩ := h.holds.cursor_eq hy
    have hle : dayOf y.2 ≤ dayOf r := by
      rcases hyday with h0 | hg
      · omega
      · rw [dayOf, dayOf, dayMs] at *
        omega
    rcases Nat.lt_or_eq_of_le hle with hlt | heq
    · omega
    · rw [heq] at hy hc
      have hb := (entries_bounds hday (by omega) hy).2
      rw [Nat.zero_add, makeCursor_eq hday (by omega)] at hb
      omega

theorem Inv.append (h : Inv codec s) (hr : codec.Faithful r) (hclock : s.clock ≤ t)
    (ht : t ≤ r.tsMs + dayGraceMs) (hday : dayOf r < 2 ^ 24) (hlen : s.fileEnd codec r < 2 ^ 40) :
    Inv codec (s.append codec r t) where
  holds := by
    constructor
    · intro day
      rw [recs_append]
      change (Spool.append codec s.files r)[day]? = _
      rw [Spool.append, ExtTreeMap.getElem?_insert]
      simp only [LawfulEqCmp.compare_eq_iff_eq]
      split_ifs with he hnil hnil
      · simp at hnil
      · rw [h.holds.getD, ← he, text_append]
        simp [text]
      · rw [h.holds.file, if_pos hnil]
      · rw [h.holds.file, if_neg hnil]
    · intro day r' hr'
      rw [recs_append] at hr'
      split_ifs at hr' with he
      · rcases List.mem_append.mp hr' with hr' | hr'
        · exact h.holds.faithful day r' hr'
        · rwa [List.mem_singleton.mp hr']
      · exact h.holds.faithful day r' hr'
    · intro day hne
      rw [recs_append] at hne
      split_ifs at hne with he
      · exact he ▸ hday
      · exact h.holds.day_lt day hne
    · intro day
      rw [recs_append]
      split_ifs with he
      · rw [← he, ← h.fileEnd_eq]
        exact hlen
      · exact h.holds.length_lt day
  entries day := by
    rw [recs_append, History.append, List.filter_append, h.entries]
    split_ifs with he
    · rw [entries_append, List.filter_cons_of_pos (by simpa using he), List.filter_nil,
        Spool.entries, Spool.entries, cursorFor, h.fileEnd_eq, ← he, text_append_length]
      simp [text]
    · rw [List.filter_cons_of_neg (by simpa using he), List.filter_nil, List.append_nil]
  reads rd hrd := by
    have he := h.reads rd hrd
    refine ⟨he.le, he.sorted, fun x => (he.mem x).trans ?_⟩
    have hlt := h.end_lt hclock ht hday hlen hrd
    constructor
    · rintro ⟨hx, hb⟩
      exact ⟨List.mem_append_left _ hx, hb⟩
    · rintro ⟨hx, hb⟩
      rcases List.mem_append.mp hx with hx | hx
      · exact ⟨hx, hb⟩
      · rw [List.mem_singleton] at hx
        subst hx
        exact absurd hb.2 (Nat.not_le_of_lt hlt)
  ends rd hrd := by
    refine (h.ends rd hrd).imp_right ?_
    rintro ⟨x, hx, hc, hd⟩
    exact ⟨x, List.mem_append_left _ hx, hc, hd.imp_right fun hg => hg.trans hclock⟩
  returned rd hrd x hx hle := by
    rcases List.mem_append.mp hx with hx | hx
    · exact h.returned rd hrd x hx hle
    · rw [List.mem_singleton] at hx
      subst hx
      exact absurd hle (Nat.not_le_of_lt (h.end_lt hclock ht hday hlen hrd))
  nodup := by
    rw [History.append, List.map_append, List.nodup_append]
    refine ⟨h.nodup, by simp, fun a ha b hb => ?_⟩
    obtain ⟨y, hy, rfl⟩ := List.mem_map.mp ha
    rw [List.map_singleton, List.mem_singleton] at hb
    subst hb
    have hy := h.mem_entries hy
    obtain ⟨o, hc, -, ho, hne⟩ := h.holds.cursor_eq hy
    rw [cursorFor, makeCursor_eq hday hlen]
    by_cases hd : dayOf y.2 = dayOf r
    · have hpos : 0 < (text codec [r]).length := text_length_pos (List.cons_ne_nil r [])
      rw [h.fileEnd_eq, text_append_length] at hlen ⊢
      rw [hd] at hy
      have hb := (entries_bounds hday (by omega) hy).2
      rw [Nat.zero_add, makeCursor_eq hday (by omega)] at hb
      omega
    · omega

/-- The cursor of a read: the start of the spool, or the end of a record. -/
theorem Inv.cursor_cases (h : Inv codec s)
    (hc : cursor = 0 ∨ ∃ rd ∈ s.reads, cursor = rd.result.endCursor) :
    cursor = 0 ∨ ∃ x ∈ s.appended, x.1 = cursor ∧
      (dayOf x.2 = 0 ∨ dayOf x.2 * dayMs + dayGraceMs ≤ s.clock) := by
  rcases hc with h0 | ⟨rd, hrd, rfl⟩
  · exact .inl h0
  · exact h.ends rd hrd

theorem Inv.aligned (h : Inv codec s)
    (hc : cursor = 0 ∨ ∃ rd ∈ s.reads, cursor = rd.result.endCursor) :
    Aligned codec s.recs cursor := by
  rcases h.cursor_cases hc with rfl | ⟨x, hx, rfl, -⟩
  · exact ⟨[], _, rfl, rfl⟩
  · have hx := h.mem_entries hx
    obtain ⟨pre, post, hrs, -, hcur⟩ := Spool.mem_entries hx
    obtain ⟨-, -, -, -, hne⟩ := h.holds.cursor_eq hx
    have hlen := h.holds.length_lt (dayOf x.2)
    rw [hrs, text_append_length] at hlen
    rw [Nat.zero_add] at hcur
    refine ⟨pre, post, ?_⟩
    rw [hcur, splitCursor_makeCursor (h.holds.day_lt _ hne) (by omega)]
    exact ⟨hrs, rfl⟩

theorem Inv.exact_read (h : Inv codec s)
    (hc : cursor = 0 ∨ ∃ rd ∈ s.reads, cursor = rd.result.endCursor) :
    Exact s.appended ⟨cursor, now, readAfter codec s.files cursor now⟩ where
  le := by
    have ha := h.aligned hc
    change _ ≤ (readAfter codec s.files cursor now).endCursor
    rw [(readAfter_end h.holds ha).2]
    rcases lastCursor_cases cursor (readAfter codec s.files cursor now).records with
      ⟨-, he⟩ | ⟨e, hmem, he⟩
    · exact he.ge
    · obtain ⟨-, -, hlt, -⟩ := (mem_readAfter h.holds ha).mp hmem
      exact he ▸ hlt.le
  sorted := readAfter_sorted h.holds (h.aligned hc)
  mem x := (mem_readAfter_iff h.holds (h.aligned hc)).trans (and_congr_left' h.mem_appended_iff.symm)

theorem Inv.read (h : Inv codec s) (hclock : s.clock ≤ now)
    (hc : cursor = 0 ∨ ∃ rd ∈ s.reads, cursor = rd.result.endCursor) :
    Inv codec (s.read codec cursor now) where
  holds := h.holds
  entries := h.entries
  reads rd hrd := by
    rcases List.mem_append.mp hrd with hrd | hrd
    · exact h.reads rd hrd
    · rw [List.mem_singleton.mp hrd]
      exact h.exact_read hc
  ends rd hrd := by
    rcases List.mem_append.mp hrd with hrd | hrd
    · refine (h.ends rd hrd).imp_right ?_
      rintro ⟨x, hx, he, hd⟩
      exact ⟨x, hx, he, hd.imp_right fun hg => hg.trans hclock⟩
    · rw [List.mem_singleton.mp hrd]
      have ha := h.aligned hc
      have hold : cursor = 0 ∨ ∃ x ∈ s.appended, x.1 = cursor ∧
          (dayOf x.2 = 0 ∨ dayOf x.2 * dayMs + dayGraceMs ≤ now) :=
        (h.cursor_cases hc).imp_right fun ⟨x, hx, he, hd⟩ =>
          ⟨x, hx, he, hd.imp_right fun hg => hg.trans hclock⟩
      change (readAfter codec s.files cursor now).endCursor = 0 ∨ _
      rw [(readAfter_end h.holds ha).2]
      rcases lastCursor_cases cursor (readAfter codec s.files cursor now).records with
        ⟨-, he⟩ | ⟨e, hmem, he⟩
      · rw [he]
        exact hold
      · obtain ⟨day, hday, -, hr⟩ := (mem_readAfter h.holds ha).mp hmem
        have hd : dayOf e.2 = day := by
          rw [← h.entries] at hday
          simpa using (List.mem_filter.mp hday).2
        refine .inr ⟨e, h.mem_appended_iff.mpr ⟨day, hday⟩, he.symm, ?_⟩
        obtain ⟨-, -, -, -, hne⟩ := h.holds.cursor_eq hday
        rw [hd]
        rcases hr with hr | ⟨-, hs⟩
        · -- Only the day in which the read starts is read before it settles.
          rcases hold with rfl | ⟨y, hy, rfl, hyday⟩
          · exact .inl hr
          · obtain ⟨o, hc, -, ho, -⟩ := h.holds.cursor_eq (h.mem_entries hy)
            rw [splitCursor_eq] at hr
            have hyd : dayOf y.2 = day := by
              simp only at hr
              omega
            exact hyd ▸ hyday
        · exact .inr ((settled_iff (h.holds.day_lt day hne) now).mp hs)
  returned rd hrd x hx hle := by
    have hmem : ∀ rd' ∈ s.reads, rd' ∈ (s.read codec cursor now).reads := fun rd' h' =>
      List.mem_append_left _ h'
    have hold : ∀ rd ∈ s.reads, x.1 ≤ rd.result.endCursor →
        ∃ rd' ∈ (s.read codec cursor now).reads, x ∈ rd'.result.records := by
      intro rd hrd hle
      obtain ⟨rd', h', hx'⟩ := h.returned rd hrd x hx hle
      exact ⟨rd', hmem rd' h', hx'⟩
    rcases List.mem_append.mp hrd with hrd | hrd
    · exact hold rd hrd hle
    · rw [List.mem_singleton] at hrd
      subst hrd
      rcases Nat.lt_or_ge cursor x.1 with hlt | hge
      · refine ⟨_, List.mem_append_right _ (List.mem_singleton_self _), ?_⟩
        exact ((h.exact_read hc).mem x).mpr ⟨hx, hlt, hle⟩
      · rcases hc with rfl | ⟨rd', hrd', rfl⟩
        · obtain ⟨o, hcx, hpos, -⟩ := h.holds.cursor_eq (h.mem_entries hx)
          omega
        · exact hold _ hrd' hge
  nodup := h.nodup

end Step

/-- The records appended in a run are ones the library writes faithfully. -/
def Faithful (codec : Codec) (s : History) : Prop := ∀ x ∈ s.appended, codec.Faithful x.2

theorem Reachable.inv {s : History} (h : Reachable codec s) (hf : Faithful codec s) :
    Inv codec s := by
  induction h with
  | start => exact init_inv
  | @play s e _ ha ih =>
    cases e with
    | append r t =>
      obtain ⟨hclock, -, ht, hday, hlen⟩ := ha
      have hold := ih fun x hx => hf x (List.mem_append_left _ hx)
      have hnew := hf _ (List.mem_append_right _ (List.mem_singleton_self _))
      exact hold.append hnew hclock ht hday hlen
    | read cursor now => exact (ih hf).read ha.1 ha.2

/-- Chained reads return everything between their ends, once and in order. -/
theorem Chain.exact {s : History} (h : Inv codec s) {c₀ c : ℕ} {rds : List Read}
    (hc : Chain s.reads c₀ rds c) :
    c₀ ≤ c ∧ (rds.flatMap (·.result.records)).Pairwise (·.1 < ·.1) ∧
      ∀ x, x ∈ rds.flatMap (·.result.records) ↔ x ∈ s.appended ∧ c₀ < x.1 ∧ x.1 ≤ c := by
  induction hc with
  | nil c =>
    refine ⟨Nat.le_refl c, .nil, fun x => ?_⟩
    rw [List.flatMap_nil]
    constructor
    · exact fun hx => (List.not_mem_nil hx).elim
    · rintro ⟨-, hlt, hle⟩
      omega
  | @cons rd rds c hrd hc ih =>
    obtain ⟨hle, hsorted, hmem⟩ := ih
    have he := h.reads rd hrd
    refine ⟨he.le.trans hle, ?_, fun x => ?_⟩
    · rw [List.flatMap_cons, List.pairwise_append]
      refine ⟨he.sorted, hsorted, fun a ha b hb => ?_⟩
      have ha := ((he.mem a).mp ha).2.2
      have hb := ((hmem b).mp hb).2.1
      omega
    · rw [List.flatMap_cons, List.mem_append, he.mem, hmem]
      have := he.le
      constructor
      · rintro (⟨hx, h₁, h₂⟩ | ⟨hx, h₁, h₂⟩)
        · exact ⟨hx, h₁, by omega⟩
        · exact ⟨hx, by omega, h₂⟩
      · rintro ⟨hx, h₁, h₂⟩
        rcases Nat.lt_or_ge rd.result.endCursor x.1 with hlt | hge
        · exact .inr ⟨hx, hlt, h₂⟩
        · exact .inl ⟨hx, h₁, hge⟩

/-- A read returns the records whose day has settled, unless an earlier one did. -/
theorem Inv.settled {s : History} (h : Inv codec s) {cursor now : ℕ}
    (hc : cursor = 0 ∨ ∃ rd ∈ s.reads, cursor = rd.result.endCursor) {x : ℕ × SpoolRecord}
    (hx : x ∈ s.appended) (hnow : dayOf x.2 * dayMs + dayGraceMs ≤ now) :
    x ∈ (readAfter codec s.files cursor now).records ∨ ∃ rd ∈ s.reads, x ∈ rd.result.records := by
  have hday := h.mem_entries hx
  obtain ⟨o, hcx, hpos, ho, hne⟩ := h.holds.cursor_eq hday
  rcases Nat.lt_or_ge cursor x.1 with hlt | hge
  · refine .inl ((mem_readAfter h.holds (h.aligned hc)).mpr ⟨_, hday, hlt, ?_⟩)
    rw [splitCursor_eq, Readable, settled_iff (h.holds.day_lt _ hne)]
    simp only
    omega
  · rcases hc with rfl | ⟨rd, hrd, rfl⟩
    · omega
    · exact .inr (h.returned rd hrd x hx hge)

/-- In every history, chained reads return each record between their ends exactly
once and in order, records are appended beyond every earlier read, a read returns
what has settled, and cursors are pairs of a day and an offset in lexicographic
order. -/
theorem chained_reads {s : History} (h : Reachable codec s) (hf : Faithful codec s) :
    (∀ c₀ rds c, Chain s.reads c₀ rds c →
      (rds.flatMap (·.result.records)).Pairwise (·.1 < ·.1) ∧
        ∀ x, x ∈ rds.flatMap (·.result.records) ↔ x ∈ s.appended ∧ c₀ < x.1 ∧ x.1 ≤ c) ∧
    (s.appended.map Prod.fst).Nodup ∧
    (∀ r t, s.Allowed codec (.append r t) →
      ∀ rd ∈ s.reads, rd.result.endCursor < s.cursorFor codec r) ∧
    (∀ cursor now, s.Allowed codec (.read cursor now) →
      ∀ x ∈ s.appended, dayOf x.2 * dayMs + dayGraceMs ≤ now →
        x ∈ (readAfter codec s.files cursor now).records ∨
          ∃ rd ∈ s.reads, x ∈ rd.result.records) ∧
    (∀ day < 2 ^ 24, ∀ off < 2 ^ 40, splitCursor (makeCursor day off) = (day, off)) ∧
    (∀ cursor < 2 ^ 64, makeCursor (splitCursor cursor).1 (splitCursor cursor).2 = cursor) ∧
    ∀ day < 2 ^ 24, ∀ off < 2 ^ 40, ∀ day' < 2 ^ 24, ∀ off' < 2 ^ 40,
      makeCursor day off < makeCursor day' off' ↔ day < day' ∨ day = day' ∧ off < off' := by
  have hinv := h.inv hf
  refine ⟨fun c₀ rds c hc => (hc.exact hinv).2, hinv.nodup, fun r t ha rd hrd => ?_,
    fun cursor now ha x hx hnow => hinv.settled ha.2 hx hnow, fun _ hd _ ho => splitCursor_makeCursor hd ho,
    fun _ hc => makeCursor_splitCursor hc, fun _ hd _ ho _ hd' _ ho' =>
      makeCursor_lt_iff hd ho hd' ho'⟩
  obtain ⟨hclock, -, ht, hday, hlen⟩ := ha
  exact hinv.end_lt hclock ht hday hlen hrd

/-- A record whose payload is null, and how it is written. -/
def midnight : SpoolRecord := ⟨86399999, "claude", "work", 1, .null⟩

def midnightText : List UInt8 :=
  ("\x7b\"ts_ms\":86399999,\"agent\":\"claude\",\"session\":\"work\",\"pane_id\":1," ++
    "\"payload\":null\x7d").toList.map fun c => UInt8.ofNat c.toNat

/-- A library that knows this record only. -/
def midnightCodec : Codec where
  toVec _ := midnightText
  fromSlice bytes := if bytes = midnightText then some midnight else none

/-- The record lands in yesterday's file after midnight, between two reads. -/
def midnightHistory : History :=
  ((start.play midnightCodec (.read 0 86400005)).play midnightCodec (.append midnight 86400010)).play
    midnightCodec (.read 0 86400020)

theorem midnightHistory_reachable : Reachable midnightCodec midnightHistory := by
  refine .play (.play (.play .start ⟨?_, .inl rfl⟩) ⟨?_, ?_, ?_, ?_, ?_⟩) ⟨?_, .inl rfl⟩
  all_goals decide

theorem midnightHistory_faithful : Faithful midnightCodec midnightHistory := by
  intro x hx
  have hx : x = (80, midnight) := List.mem_singleton.mp hx
  rw [hx]
  exact ⟨by simp [midnightCodec], by decide⟩

theorem chained_reads_midnight :
    (∀ c₀ rds c, Chain midnightHistory.reads c₀ rds c →
      (rds.flatMap (·.result.records)).Pairwise (·.1 < ·.1) ∧
        ∀ x, x ∈ rds.flatMap (·.result.records) ↔
          x ∈ midnightHistory.appended ∧ c₀ < x.1 ∧ x.1 ≤ c) ∧
      (midnightHistory.appended.map Prod.fst).Nodup := by
  have h := chained_reads midnightHistory_reachable midnightHistory_faithful
  exact ⟨h.1, h.2.1⟩

end History

end MultiAi.Spool
