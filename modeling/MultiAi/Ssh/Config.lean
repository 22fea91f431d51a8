import MultiAi.Library.Lines
import MultiAi.Library.Sections
import MultiAi.Library.Split
import MultiAi.Probe.HookMap
import MultiAi.Ssh.Patterns

/-! # Match blocks of an ssh config

The parser would put the settings of a `Match` block under the `Host` before it, so the blocks are
cut out of the text first. A second pass over the same lines warns of what was cut.
-/

namespace MultiAi.Config

open Machine Sections

/-- First word of a config line, lowercased (`Host`, `Match`, ...). -/
def keyword (line : List Char) : List Char :=
  ((line.dropWhile HookMap.isWhiteSpace).takeWhile
    fun c => !(HookMap.isWhiteSpace c || c == '=')).map Char.toLower

def configLines (text : List Char) : List (List Char) := Lines.lines '\n' '\r' text

/-- Whether a line stands in a `Match` block, from whether the one before it does. -/
def enters (inMatch : Bool) (line : List Char) : Bool :=
  if keyword line = "match".toList then true
  else if keyword line = "host".toList then false
  else inMatch

def pushLine (inMatch : Bool) (line : List Char) : Bool × List Char :=
  (enters inMatch line, if enters inMatch line then [] else line ++ ['\n'])

/-- Lines of a text without `Match` blocks. A block runs from a `Match` line to the next `Host` or
`Match` line. -/
def withoutMatchBlocks (text : List Char) : List Char := outputs pushLine false (configLines text)

/-- A warning of the line with a number counted from zero. -/
def note (i : ℕ) (text : String) : String := s!"ssh config line {i + 1}: {text}"

def ignored (i : ℕ) : String :=
  note i "Match blocks are not supported; their settings are ignored"

def followed (i : ℕ) : String :=
  note i "Include is followed, but Match blocks in included files are not detected; their settings may apply to the preceding Host"

def warning (i : ℕ) (line : List Char) : Option String :=
  if keyword line = "match".toList then some (ignored i)
  else if keyword line = "include".toList then some (followed i)
  else none

/-- Things in a text the user should know about, with 1-based line numbers. -/
def configWarnings (text : List Char) : List String :=
  (configLines text).zipIdx.filterMap fun l => warning l.2 l.1

/-- Whether the line of a number has a keyword. -/
def Has (name : String) (lines : List (List Char)) (i : ℕ) : Prop :=
  lines[i]?.map keyword = some name.toList

instance (name : String) (lines : List (List Char)) (i : ℕ) : Decidable (Has name lines i) :=
  inferInstanceAs (Decidable (_ = _))

/-- The number of the nearest `Host` or `Match` line before a line. -/
def governingLine (lines : List (List Char)) : ℕ → Option ℕ
  | 0 => none
  | i + 1 => if Has "host" lines i ∨ Has "match" lines i then some i else governingLine lines i

/-- A line is a `Host` line, or is governed by one or by none and is no `Match` line. -/
def Stays (lines : List (List Char)) (i : ℕ) : Prop :=
  Has "host" lines i ∨
    (∀ j ∈ governingLine lines i, Has "host" lines j) ∧ ¬ Has "match" lines i

instance (lines : List (List Char)) (i : ℕ) : Decidable (Stays lines i) :=
  inferInstanceAs (Decidable (_ ∨ _))

/-- The numbers of the lines that stay. -/
def numbers (lines : List (List Char)) : List ℕ :=
  (List.range lines.length).filter (Stays lines ·)

/-- The lines that stay. -/
def keptLines (lines : List (List Char)) : List (List Char) :=
  (numbers lines).filterMap (lines[·]?)

/-- A line that stays as the `k`-th one has the governing line it had. -/
def SameGoverning (text : List Char) (k i : ℕ) : Prop :=
  (governingLine (configLines (withoutMatchBlocks text)) k).bind
    ((numbers (configLines text))[·]?) = governingLine (configLines text) i

/-- `Match` blocks are cut out and nothing else is moved, and the warnings say what was cut. -/
structure CutsOut (text : List Char) : Prop where
  kept : withoutMatchBlocks text = (keptLines (configLines text)).flatMap (Lines.terminate '\n')
  governed : ∀ k i, (numbers (configLines text))[k]? = some i → SameGoverning text k i
  again : withoutMatchBlocks (withoutMatchBlocks text) = withoutMatchBlocks text
  ignored : ∀ i, ignored i ∈ configWarnings text ↔ Has "match" (configLines text) i
  followed : ∀ i, followed i ∈ configWarnings text ↔
    i ∈ numbers (configLines text) ∧ Has "include" (configLines text) i

/-- What a line opens: a block that is cut, one that stays, or none. -/
def opens (line : List Char) : Option Bool :=
  if keyword line = "match".toList then some true
  else if keyword line = "host".toList then some false
  else none

variable {line : List Char} {lines : List (List Char)} {text : List Char} {i j k : ℕ}

theorem match_ne_host : "match".toList ≠ "host".toList := by decide

theorem match_ne_include : "match".toList ≠ "include".toList := by decide

theorem host_ne_include : "host".toList ≠ "include".toList := by decide

theorem opens_eq_some_true : opens line = some true ↔ keyword line = "match".toList := by
  rw [opens]
  split_ifs with hmatch hhost
  · exact iff_of_true rfl hmatch
  · exact iff_of_false (by simp) hmatch
  · exact iff_of_false (by simp) hmatch

theorem opens_eq_some_false : opens line = some false ↔ keyword line = "host".toList := by
  rw [opens]
  split_ifs with hmatch hhost
  · exact iff_of_false (by simp) fun hhost => match_ne_host (hmatch.symm.trans hhost)
  · exact iff_of_true rfl hhost
  · exact iff_of_false (by simp) hhost

theorem isSome_opens : (opens line).isSome ↔
    keyword line = "host".toList ∨ keyword line = "match".toList := by
  rw [← opens_eq_some_true, ← opens_eq_some_false]
  cases opens line with
  | none => simp
  | some b => cases b <;> simp

theorem enters_eq (inMatch : Bool) : enters inMatch line = (opens line).getD inMatch := by
  rw [enters, opens]
  split_ifs <;> rfl

theorem outputs_pushLine (inMatch : Bool) (lines : List (List Char)) :
    outputs pushLine inMatch lines =
      (outputs (cut opens) inMatch lines).flatMap (Lines.terminate '\n') := by
  induction lines generalizing inMatch with
  | nil => rfl
  | cons line lines ih =>
    rw [outputs_cons, outputs_cons, pushLine, cut, enters_eq, ih, List.flatMap_append]
    cases (opens line).getD inMatch <;> simp [Lines.terminate]

theorem has_iff {name : String} : Has name lines i ↔
    ∃ line, lines[i]? = some line ∧ keyword line = name.toList := by
  rw [Has, Option.map_eq_some_iff]

theorem has_match_iff : Has "match" lines i ↔ lines[i]?.bind opens = some true := by
  simp only [has_iff, Option.bind_eq_some_iff, opens_eq_some_true]

theorem has_host_iff : Has "host" lines i ↔ lines[i]?.bind opens = some false := by
  simp only [has_iff, Option.bind_eq_some_iff, opens_eq_some_false]

theorem governingLine_eq : governingLine lines i = governing opens lines i := by
  induction i with
  | zero => rfl
  | succ i ih =>
    rw [governingLine, governing, ih]
    refine if_congr ?_ rfl rfl
    cases h : lines[i]? <;> simp [Has, h, isSome_opens]

theorem sort_eq_some_true :
    sort opens lines i = some true ↔ ∃ j ∈ governingLine lines i, Has "match" lines j := by
  rw [sort, Option.bind_eq_some_iff, governingLine_eq]
  simp only [has_match_iff, Option.mem_def]

/-- A governing line is a `Host` or a `Match` line. -/
theorem sort_ne_some_true :
    sort opens lines i ≠ some true ↔ ∀ j ∈ governingLine lines i, Has "host" lines j := by
  rw [Ne, sort_eq_some_true, governingLine_eq]
  simp only [not_exists, not_and, has_match_iff, has_host_iff]
  refine forall₂_congr fun j hj => ?_
  obtain ⟨b, hb⟩ := Option.isSome_iff_exists.mp (isSome_of_governing hj)
  cases b <;> simp [hb]

theorem stays_iff : Stays lines i ↔ dropped opens lines i = false := by
  rw [Stays, ← sort_ne_some_true, has_match_iff, has_host_iff, dropped]
  cases hline : lines[i]?.bind opens with
  | some b => cases b <;> simp
  | none =>
    cases hsort : sort opens lines i with
    | none => simp
    | some b => cases b <;> simp

theorem numbers_eq : numbers lines = keptAt opens lines := by
  refine List.filter_congr fun i _ => ?_
  rw [Bool.eq_iff_iff, decide_eq_true_iff, stays_iff, Bool.not_eq_true']

theorem keptLines_eq : keptLines lines = outputs (cut opens) false lines := by
  rw [keptLines, numbers_eq, ← Function.id_comp (lines[·]?), ← List.filterMap_map, ← outputs_cut,
    List.filterMap_map]
  exact List.filterMap_some

theorem withoutMatchBlocks_eq :
    withoutMatchBlocks text = (keptLines (configLines text)).flatMap (Lines.terminate '\n') := by
  rw [withoutMatchBlocks, outputs_pushLine, keptLines_eq]

theorem mem_of_mem_keptLines (h : line ∈ keptLines lines) : line ∈ lines := by
  obtain ⟨i, -, hi⟩ := List.mem_filterMap.mp h
  exact List.mem_of_getElem? hi

theorem configLines_withoutMatchBlocks :
    configLines (withoutMatchBlocks text) =
      (keptLines (configLines text)).map (Lines.dropCr '\r') := by
  rw [withoutMatchBlocks_eq]
  exact Lines.lines_flatMap fun line hl => Lines.notMem_of_mem_lines (mem_of_mem_keptLines hl)

theorem keyword_append_blank {c : Char} (h : HookMap.isWhiteSpace c = true) (line : List Char) :
    keyword (line ++ [c]) = keyword line := by
  rw [keyword, keyword, List.dropWhile_append]
  split_ifs with hblank
  · rw [List.isEmpty_iff.mp hblank]
    simp [h]
  · rw [List.takeWhile_append]
    split_ifs with hall
    · rw [(List.takeWhile_prefix _).eq_of_length hall]
      simp [h]
    · rfl

/-- The end of a line says nothing of its first word. -/
theorem keyword_dropCr (line : List Char) : keyword (Lines.dropCr '\r' line) = keyword line := by
  by_cases h : Lines.dropCr '\r' line = line
  · rw [h]
  · rw [Lines.dropCr_eq_self, not_ne_iff] at h
    obtain ⟨init, rfl⟩ := List.getLast?_eq_some_iff.mp h
    rw [Lines.dropCr_concat, keyword_append_blank (by decide)]

theorem opens_dropCr (line : List Char) : opens (Lines.dropCr '\r' line) = opens line := by
  rw [opens, opens, keyword_dropCr]

theorem not_match_of_mem_keptLines (h : line ∈ keptLines lines) : opens line ≠ some true := by
  rw [keptLines_eq] at h
  exact stays_of_mem_outputs h

/-- What stays has the governing line it had, unless that is a `Match` line. -/
theorem sameGoverning_iff (hk : (numbers (configLines text))[k]? = some i) :
    SameGoverning text k i ↔
      ∀ j ∈ governingLine (configLines text) i, Has "host" (configLines text) j := by
  rw [SameGoverning, configLines_withoutMatchBlocks, governingLine_eq, governing_map opens_dropCr,
    keptLines_eq, ← sort_ne_some_true, governingLine_eq, numbers_eq]
  rw [numbers_eq] at hk
  exact governing_outputs hk

/-- Without blocks to cut, a text only loses the marks before its line ends. -/
theorem again_eq : withoutMatchBlocks (withoutMatchBlocks text) =
    ((keptLines (configLines text)).map (Lines.dropCr '\r')).flatMap (Lines.terminate '\n') := by
  rw [withoutMatchBlocks_eq, configLines_withoutMatchBlocks, keptLines_eq, outputs_of_stays]
  intro line hl
  obtain ⟨l, hkept, rfl⟩ := List.mem_map.mp hl
  rw [opens_dropCr]
  exact not_match_of_mem_keptLines hkept

theorem again_iff : withoutMatchBlocks (withoutMatchBlocks text) = withoutMatchBlocks text ↔
    ∀ line ∈ keptLines (configLines text), line.getLast? ≠ some '\r' := by
  have hno : ∀ line ∈ keptLines (configLines text), '\n' ∉ line :=
    fun line hl => Lines.notMem_of_mem_lines (mem_of_mem_keptLines hl)
  have hcr : ∀ line ∈ (keptLines (configLines text)).map (Lines.dropCr '\r'), '\n' ∉ line := by
    intro line hl
    obtain ⟨l, hkept, rfl⟩ := List.mem_map.mp hl
    exact fun hn => hno l hkept ((Lines.isPrefix_dropCr l).subset hn)
  rw [again_eq, withoutMatchBlocks_eq, Lines.flatMap_terminate_inj hcr hno]
  nth_rewrite 2 [← List.map_id (keptLines (configLines text))]
  simp only [List.map_inj_left, id_eq, Lines.dropCr_eq_self]

theorem colon_notMem (i : ℕ) : ':' ∉ (toString i).toList := fun h =>
  absurd (Patterns.isDigit_of_mem_toString h) (by decide)

theorem note_toList (i : ℕ) (t : String) : (note i t).toList =
    "ssh config line ".toList ++ ((toString (i + 1)).toList ++ ':' :: ' ' :: t.toList) := by
  have happ : (note i t).toList =
      "ssh config line ".toList ++ (toString (i + 1)).toList ++ ": ".toList ++ t.toList := by
    refine String.toList_append.trans (congrArg (· ++ t.toList) ?_)
    refine String.toList_append.trans (congrArg (· ++ ": ".toList) ?_)
    exact String.toList_append
  rw [happ, List.append_assoc, List.append_assoc]
  rfl

/-- A warning is read back as its line number and its text. -/
theorem note_inj {t t' : String} (h : note i t = note j t') : i = j ∧ t = t' := by
  have hlist := congrArg String.toList h
  rw [note_toList, note_toList] at hlist
  obtain ⟨hnum, hrest⟩ := Split.append_inj_of_notMem (List.append_cancel_left hlist)
    (colon_notMem (i + 1)) (colon_notMem (j + 1))
  exact ⟨Nat.succ_injective (Nat.repr_injective (String.toList_inj.mp hnum)),
    String.toList_inj.mp (List.cons.inj hrest).2⟩

theorem ignored_inj : ignored i = ignored j ↔ i = j := ⟨fun h => (note_inj h).1, congrArg _⟩

theorem followed_inj : followed i = followed j ↔ i = j := ⟨fun h => (note_inj h).1, congrArg _⟩

theorem ignored_ne_followed : ignored i ≠ followed j := fun h =>
  absurd (note_inj h).2 (by simp)

theorem mem_configWarnings {w : String} : w ∈ configWarnings text ↔
    ∃ j line, (configLines text)[j]? = some line ∧ warning j line = some w := by
  rw [configWarnings, List.mem_filterMap, Prod.exists, exists_comm]
  simp only [List.mem_zipIdx_iff_getElem?]

theorem warning_eq_ignored :
    warning j line = some (ignored i) ↔ j = i ∧ keyword line = "match".toList := by
  rw [warning]
  split_ifs with hmatch hinclude
  · rw [Option.some_inj, ignored_inj]
    exact (and_iff_left hmatch).symm
  · exact iff_of_false (fun h => ignored_ne_followed (Option.some_inj.mp h).symm)
      (fun h => hmatch h.2)
  · exact iff_of_false (by simp) (fun h => hmatch h.2)

theorem warning_eq_followed :
    warning j line = some (followed i) ↔ j = i ∧ keyword line = "include".toList := by
  rw [warning]
  split_ifs with hmatch hinclude
  · exact iff_of_false (fun h => ignored_ne_followed (Option.some_inj.mp h))
      (fun h => match_ne_include (hmatch.symm.trans h.2))
  · rw [Option.some_inj, followed_inj]
    exact (and_iff_left hinclude).symm
  · exact iff_of_false (by simp) (fun h => hinclude h.2)

theorem ignored_mem_iff :
    ignored i ∈ configWarnings text ↔ Has "match" (configLines text) i := by
  simp [mem_configWarnings, warning_eq_ignored, has_iff]

/-- Every `Include` is reported, wherever it stands. -/
theorem followed_mem_iff :
    followed i ∈ configWarnings text ↔ Has "include" (configLines text) i := by
  simp [mem_configWarnings, warning_eq_followed, has_iff]

theorem mem_numbers : i ∈ numbers lines ↔ i < lines.length ∧ Stays lines i := by
  simp [numbers]

theorem lt_of_has {name : String} (h : Has name lines i) : i < lines.length := by
  obtain ⟨line, hline, -⟩ := has_iff.mp h
  exact (List.getElem?_eq_some_iff.mp hline).1

/-- What is said of the `Include` lines is right unless one stands in a block that is cut. -/
theorem followed_kept_iff :
    (∀ i, followed i ∈ configWarnings text ↔
      i ∈ numbers (configLines text) ∧ Has "include" (configLines text) i) ↔
    ∀ i j, Has "include" (configLines text) i → j ∈ governingLine (configLines text) i →
      Has "host" (configLines text) j := by
  have hstays : ∀ {i}, Has "include" (configLines text) i →
      (i ∈ numbers (configLines text) ↔
        ∀ j ∈ governingLine (configLines text) i, Has "host" (configLines text) j) := by
    intro i hi
    have hhost : ¬ Has "host" (configLines text) i := fun h =>
      host_ne_include (Option.some_inj.mp (h.symm.trans hi))
    have hmatch : ¬ Has "match" (configLines text) i := fun h =>
      match_ne_include (Option.some_inj.mp (h.symm.trans hi))
    rw [mem_numbers, and_iff_right (lt_of_has hi), Stays, or_iff_right hhost, and_iff_left hmatch]
  simp only [followed_mem_iff]
  constructor
  · intro h i j hi
    exact (hstays hi).mp ((h i).mp hi).1 j
  · intro h i
    refine ⟨fun hi => ⟨(hstays hi).mpr fun j => h i j hi, hi⟩, And.right⟩

/-- `Match` blocks are cut out line by line. A line that stays keeps its governing line, unless it
is a `Host` line at the end of a block; a second pass only drops further marks before line ends;
each block is reported once, and each `Include` that stays. -/
theorem cuts_blocks (text : List Char) :
    withoutMatchBlocks text = (keptLines (configLines text)).flatMap (Lines.terminate '\n') ∧
    (∀ k i, (numbers (configLines text))[k]? = some i →
      (SameGoverning text k i ↔ ¬ (Has "host" (configLines text) i ∧
        ∃ j ∈ governingLine (configLines text) i, Has "match" (configLines text) j))) ∧
    withoutMatchBlocks (withoutMatchBlocks text) = ((keptLines (configLines text)).map
      (Lines.dropCr '\r')).flatMap (Lines.terminate '\n') ∧
    (withoutMatchBlocks (withoutMatchBlocks text) = withoutMatchBlocks text ↔
      ∀ line ∈ keptLines (configLines text), line.getLast? ≠ some '\r') ∧
    (∀ i, ignored i ∈ configWarnings text ↔ Has "match" (configLines text) i) ∧
    (∀ i, followed i ∈ configWarnings text → Has "include" (configLines text) i) ∧
    ∀ i ∈ numbers (configLines text),
      Has "include" (configLines text) i → followed i ∈ configWarnings text := by
  refine ⟨withoutMatchBlocks_eq, ?_, again_eq, again_iff, fun i => ignored_mem_iff,
    fun i => followed_mem_iff.mp, fun i _ => followed_mem_iff.mpr⟩
  intro k i hk
  rw [sameGoverning_iff hk, ← sort_ne_some_true, Ne, sort_eq_some_true]
  refine not_congr ⟨fun h => ⟨?_, h⟩, And.right⟩
  -- what stays under a block that is cut ends it
  rcases (mem_numbers.mp (List.mem_of_getElem? hk)).2 with hhost | ⟨hall, -⟩
  · exact hhost
  · exact absurd (sort_eq_some_true.mpr h) (sort_ne_some_true.mpr hall)

/-- The block before a `Host` line is gone, and so is one more mark in a second pass. -/
theorem not_cutsOut : ¬ CutsOut "Match all\nHost b\r\r\n".toList ∧
    ¬ SameGoverning "Match all\nHost b\r\r\n".toList 0 1 ∧
    withoutMatchBlocks (withoutMatchBlocks "Match all\nHost b\r\r\n".toList) ≠
      withoutMatchBlocks "Match all\nHost b\r\r\n".toList := by
  have hmoved : ¬ SameGoverning "Match all\nHost b\r\r\n".toList 0 1 := by
    unfold SameGoverning
    decide
  exact ⟨fun h => hmoved (h.governed 0 1 (by decide)), hmoved, by decide⟩

end MultiAi.Config
