import Mathlib.Data.List.Basic
import Mathlib.Data.List.Induction

/-! # Lines

Splitting a list into the pieces that end with a separator, as a reader of lines
does with newlines.
-/

namespace MultiAi.Lines

variable {α : Type*} (sep : α)

/-- A line with its separator. -/
def terminate (line : List α) : List α := line ++ [sep]

section Terminate

variable {sep} (line : List α)

theorem getLast?_terminate : (terminate sep line).getLast? = some sep := List.getLast?_concat

theorem dropLast_terminate : (terminate sep line).dropLast = line := List.dropLast_concat

theorem length_terminate : (terminate sep line).length = line.length + 1 := by
  rw [terminate, List.length_append, List.length_singleton]

end Terminate

theorem intercalate_cons (as : List α) (ass : List (List α)) :
    [sep].intercalate (as :: ass) = as ++ ass.flatMap (sep :: ·) := by
  induction ass generalizing as with
  | nil => simp
  | cons bs ass ih => rw [List.intercalate_cons_cons, ih]; simp

variable [DecidableEq α]

/-- The pieces of a list up to and including each separator, and what is left
after the last one, if anything. -/
def splitInclusive : List α → List (List α)
  | [] => []
  | a :: as =>
    if a = sep then [a] :: splitInclusive as
    else match splitInclusive as with
      | [] => [[a]]
      | piece :: pieces => (a :: piece) :: pieces

variable {sep}

theorem splitInclusive_terminate_append {line : List α} (h : sep ∉ line) (rest : List α) :
    splitInclusive sep (terminate sep line ++ rest) =
      terminate sep line :: splitInclusive sep rest := by
  induction line with
  | nil => simp [terminate, splitInclusive]
  | cons a line ih =>
    rw [List.mem_cons, not_or] at h
    have hrest := ih h.2
    rw [terminate, List.cons_append, List.cons_append, splitInclusive, if_neg (Ne.symm h.1)]
    rw [terminate] at hrest
    rw [hrest]

/-- Whole lines are split from what follows them. -/
theorem splitInclusive_flatMap_append {lines : List (List α)} (h : ∀ line ∈ lines, sep ∉ line)
    (rest : List α) : splitInclusive sep (lines.flatMap (terminate sep) ++ rest) =
      lines.map (terminate sep) ++ splitInclusive sep rest := by
  induction lines with
  | nil => rfl
  | cons line lines ih =>
    rw [List.flatMap_cons, List.append_assoc,
      splitInclusive_terminate_append (h line List.mem_cons_self),
      ih fun l hl => h l (List.mem_cons_of_mem _ hl), List.map_cons, List.cons_append]

/-- Whole lines split back into themselves. -/
theorem splitInclusive_flatMap {lines : List (List α)} (h : ∀ line ∈ lines, sep ∉ line) :
    splitInclusive sep (lines.flatMap (terminate sep)) = lines.map (terminate sep) := by
  have hall := splitInclusive_flatMap_append h []
  rwa [List.append_nil, splitInclusive, List.append_nil] at hall

/-- A list is whole lines and what is left after the last of them. -/
theorem exists_lines (sep : α) (as : List α) : ∃ (lines : List (List α)) (rest : List α),
    (∀ line ∈ lines, sep ∉ line) ∧ sep ∉ rest ∧
      as = lines.flatMap (terminate sep) ++ rest := by
  induction as with
  | nil => exact ⟨[], [], nofun, nofun, rfl⟩
  | cons a as ih =>
    obtain ⟨lines, rest, hlines, hrest, rfl⟩ := ih
    by_cases ha : a = sep
    · subst ha
      refine ⟨[] :: lines, rest, ?_, hrest, rfl⟩
      rintro line (_ | ⟨_, hl⟩)
      · exact List.not_mem_nil
      · exact hlines line hl
    · cases lines with
      | nil => exact ⟨[], a :: rest, nofun, by simp [Ne.symm ha, hrest], rfl⟩
      | cons line lines =>
        refine ⟨(a :: line) :: lines, rest, ?_, hrest, rfl⟩
        rintro l (_ | ⟨_, hl⟩)
        · simp [Ne.symm ha, hlines line List.mem_cons_self]
        · exact hlines l (List.mem_cons_of_mem _ hl)

theorem splitInclusive_of_notMem {line : List α} (h : sep ∉ line) :
    splitInclusive sep line = if line = [] then [] else [line] := by
  induction line with
  | nil => rfl
  | cons a line ih =>
    rw [List.mem_cons, not_or] at h
    rw [splitInclusive, if_neg (Ne.symm h.1), ih h.2]
    cases line <;> rfl

theorem flatten_splitInclusive (as : List α) : (splitInclusive sep as).flatten = as := by
  induction as with
  | nil => rfl
  | cons a as ih =>
    rw [splitInclusive]
    split_ifs
    · rw [List.flatten_cons, ih, List.singleton_append]
    · cases hs : splitInclusive sep as with
      | nil =>
        rw [hs] at ih
        rw [← ih]
        rfl
      | cons piece pieces =>
        rw [hs, List.flatten_cons] at ih
        rw [List.flatten_cons, List.cons_append, ih]

/-- What is left after the last separator. -/
def rest (sep : α) (as : List α) : List α := (as.reverse.takeWhile (· ≠ sep)).reverse

theorem rest_append {lines : List (List α)} {left : List α} (h : sep ∉ left) :
    rest sep (lines.flatMap (terminate sep) ++ left) = left := by
  have hleft : ∀ a ∈ left.reverse, decide (a ≠ sep) = true := by
    intro a ha
    rw [decide_eq_true_eq]
    rintro rfl
    exact h (List.mem_reverse.mp ha)
  have hlines : (lines.flatMap (terminate sep)).reverse.takeWhile (· ≠ sep) = [] := by
    cases lines using List.reverseRecOn with
    | nil => rfl
    | append_singleton lines line => simp [terminate]
  rw [rest, List.reverse_append, List.takeWhile_append_of_pos hleft, hlines, List.append_nil,
    List.reverse_reverse]

theorem notMem_rest (as : List α) : sep ∉ rest sep as := by
  rw [rest, List.mem_reverse]
  intro h
  simpa using List.all_eq_true.mp List.all_takeWhile sep h

section Chomp

variable (sep) (cr : α)

/-- A line without its end. -/
def dropCr (line : List α) : List α := if line.getLast? = some cr then line.dropLast else line

/-- A piece without its separator and the mark before that. -/
def chomp (piece : List α) : List α :=
  if piece.getLast? = some sep then dropCr cr piece.dropLast else piece

/-- The lines of a text. -/
def lines (text : List α) : List (List α) := (splitInclusive sep text).map (chomp sep cr)

/-- Whole lines and the lines of what follows. -/
theorem lines_flatMap_append {ls : List (List α)} (h : ∀ line ∈ ls, sep ∉ line) (rest : List α) :
    lines sep cr (ls.flatMap (terminate sep) ++ rest) =
      ls.map (dropCr cr) ++ lines sep cr rest := by
  rw [lines, splitInclusive_flatMap_append h, List.map_append, List.map_map, lines]
  congr 1
  refine List.map_congr_left fun line _ => ?_
  rw [Function.comp_apply, chomp, getLast?_terminate, if_pos rfl, dropLast_terminate]

@[simp] theorem lines_nil : lines sep cr [] = [] := rfl

variable {sep cr}

theorem isPrefix_dropCr (line : List α) : dropCr cr line <+: line := by
  rw [dropCr]
  split_ifs
  · exact List.dropLast_prefix line
  · exact List.prefix_rfl

theorem isPrefix_chomp (piece : List α) : chomp sep cr piece <+: piece := by
  rw [chomp]
  split_ifs
  · exact (isPrefix_dropCr _).trans (List.dropLast_prefix piece)
  · exact List.prefix_rfl

theorem infix_of_mem_lines {line text : List α} (h : line ∈ lines sep cr text) :
    line <:+: text := by
  obtain ⟨piece, hpiece, rfl⟩ := List.mem_map.mp h
  have hinfix := List.infix_of_mem_flatten hpiece
  rw [flatten_splitInclusive] at hinfix
  exact (isPrefix_chomp piece).isInfix.trans hinfix

theorem notMem_of_mem_lines {line text : List α} (h : line ∈ lines sep cr text) : sep ∉ line := by
  obtain ⟨ls, left, hls, hleft, rfl⟩ := exists_lines sep text
  rw [lines_flatMap_append sep cr hls, List.mem_append] at h
  rcases h with h | h
  · obtain ⟨l, hl, rfl⟩ := List.mem_map.mp h
    exact fun hsep => hls l hl ((isPrefix_dropCr l).subset hsep)
  · exact fun hsep => hleft ((infix_of_mem_lines h).subset hsep)

theorem dropCr_eq_self {line : List α} : dropCr cr line = line ↔ line.getLast? ≠ some cr := by
  rw [dropCr]
  split_ifs with h
  · have hne : line ≠ [] := by
      rintro rfl
      cases h
    have hlen : line.dropLast.length ≠ line.length := by
      have hpos := List.length_pos_iff.mpr hne
      rw [List.length_dropLast]
      omega
    exact iff_of_false (fun heq => hlen (congrArg List.length heq)) (fun hn => hn h)
  · exact iff_of_true rfl h

theorem dropCr_concat (line : List α) : dropCr cr (line ++ [cr]) = line := by
  rw [dropCr, List.getLast?_concat, if_pos rfl, List.dropLast_concat]

/-- Whole lines are read back without their ends, and are whole if none had one. -/
theorem lines_flatMap {ls : List (List α)} (h : ∀ line ∈ ls, sep ∉ line) :
    lines sep cr (ls.flatMap (terminate sep)) = ls.map (dropCr cr) := by
  have hall := lines_flatMap_append sep cr h []
  rwa [List.append_nil, lines_nil, List.append_nil] at hall

theorem flatMap_terminate_inj {ls ls' : List (List α)} (h : ∀ line ∈ ls, sep ∉ line)
    (h' : ∀ line ∈ ls', sep ∉ line) :
    ls.flatMap (terminate sep) = ls'.flatMap (terminate sep) ↔ ls = ls' := by
  refine ⟨fun heq => ?_, congrArg _⟩
  have hsplit := congrArg (splitInclusive sep) heq
  rw [splitInclusive_flatMap h, splitInclusive_flatMap h'] at hsplit
  have hinj : Function.Injective (terminate sep) := fun a b hab => List.append_cancel_right hab
  exact hinj.list_map hsplit

end Chomp

end MultiAi.Lines
