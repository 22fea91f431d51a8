import Mathlib.Data.List.TakeWhile
import MultiAi.Library.Lines

/-! # Words of a POSIX command line

Blanks separate words, single quotes keep what is between them, a backslash outside quotes
keeps one character. A line with another special character outside quotes is no list of
words.
-/

namespace MultiAi.ShellWords

/-- The characters of a word, each with whether it was quoted. -/
abbrev Word := List (Char × Bool)

def quoteMark : Char := '\x27'

/-- Characters that mean something else than themselves where they are not quoted. -/
def special : List Char := "|&;<>()$\x60\x22\n*?[#~!\x7b\x7d%".toList

/-- The characters of a word without their marks. -/
def text (w : Word) : String := String.ofList (w.map Prod.fst)

def quoted (s : List Char) : Word := s.map (·, true)

def bare (s : List Char) : Word := s.map (·, false)

/-- What the last characters of a line put the next one in. -/
inductive Mode | outside | quotes | escape

/-- Split a line into words, after a word that was begun. -/
def lex : Mode → Option Word → List Char → Option (List Word)
  | .outside, cur, [] => some cur.toList
  | .quotes, _, [] => none
  | .escape, _, [] => none
  | .quotes, cur, c :: cs =>
    if c = quoteMark then lex .outside cur cs
    else lex .quotes (some (cur.getD [] ++ [(c, true)])) cs
  | .escape, cur, c :: cs => lex .outside (some (cur.getD [] ++ [(c, true)])) cs
  | .outside, cur, c :: cs =>
    if c = quoteMark then lex .quotes (some (cur.getD [])) cs
    else if c = '\\' then lex .escape cur cs
    else if c = ' ' ∨ c = '\t' then (lex .outside none cs).map (cur.toList ++ ·)
    else if c ∈ special then none
    else lex .outside (some (cur.getD [] ++ [(c, false)])) cs

/-- Quote a word: what stands between single quotes is literal, and a quote mark leaves
them for a moment. -/
def quote (s : List Char) : List Char :=
  quoteMark :: s.flatMap (fun c =>
    if c = quoteMark then [quoteMark, '\\', quoteMark, quoteMark] else [c]) ++ [quoteMark]

section Lex

variable (cur : Option Word) (rest : List Char)

theorem lex_blank : lex .outside cur (' ' :: rest) = (lex .outside none rest).map (cur.toList ++ ·) := by
  rw [lex, if_neg (by decide), if_neg (by decide), if_pos (.inl rfl)]

theorem lex_mark : lex .outside cur (quoteMark :: rest) = lex .quotes (some (cur.getD [])) rest := by
  rw [lex, if_pos rfl]

theorem lex_mark_close (w : Word) :
    lex .quotes (some w) (quoteMark :: rest) = lex .outside (some w) rest := by
  rw [lex, if_pos rfl]

theorem lex_open {w : Word} {c : Char} (h : c ≠ quoteMark) :
    lex .quotes (some w) (c :: rest) = lex .quotes (some (w ++ [(c, true)])) rest := by
  rw [lex, if_neg h, Option.getD_some]

theorem lex_backslash (w : Word) (d : Char) :
    lex .outside (some w) ('\\' :: d :: rest) = lex .outside (some (w ++ [(d, true)])) rest := by
  rw [lex, if_neg (by decide), if_pos rfl, lex, Option.getD_some]

/-- A character that is no quote, blank or special one stands for itself. -/
def Plain (c : Char) : Prop := c ∉ [quoteMark, '\\', ' ', '\t'] ∧ c ∉ special

instance : DecidablePred Plain := fun _ => inferInstanceAs (Decidable (_ ∧ _))

theorem lex_plain {c : Char} (h : Plain c) :
    lex .outside cur (c :: rest) = lex .outside (some (cur.getD [] ++ [(c, false)])) rest := by
  obtain ⟨hc, hs⟩ := h
  simp only [List.mem_cons, List.not_mem_nil, or_false, not_or] at hc
  rw [lex, if_neg hc.1, if_neg hc.2.1, if_neg (not_or.mpr hc.2.2), if_neg hs]

/-- The code of a word extends the word that was begun, whatever follows. -/
def Codes (code : List Char) (w : Word) : Prop :=
  ∀ cur rest, lex .outside cur (code ++ rest) = lex .outside (some (cur.getD [] ++ w)) rest

theorem codes_bare {s : List Char} (hne : s ≠ []) (h : ∀ c ∈ s, Plain c) : Codes s (bare s) := by
  have hgo : ∀ (s : List Char) (w : Word) (rest : List Char), (∀ c ∈ s, Plain c) →
      lex .outside (some w) (s ++ rest) = lex .outside (some (w ++ bare s)) rest := by
    intro s
    induction s with
    | nil => simp [bare]
    | cons c s ih =>
      intro w rest h
      obtain ⟨hc, hs⟩ := List.forall_mem_cons.mp h
      rw [List.cons_append, lex_plain _ _ hc, ih _ _ hs]
      simp [bare]
  intro cur rest
  cases s with
  | nil => exact absurd rfl hne
  | cons c s =>
    obtain ⟨hc, hs⟩ := List.forall_mem_cons.mp h
    rw [List.cons_append, lex_plain _ _ hc, hgo s _ _ hs]
    simp [bare]

theorem codes_bare_of_all {s : List Char} (hne : s ≠ [])
    (h : s.all (fun c => decide (Plain c)) = true) : Codes s (bare s) :=
  codes_bare hne fun c hc => of_decide_eq_true (List.all_eq_true.mp h c hc)

theorem codes_quote (s : List Char) : Codes (quote s) (quoted s) := by
  have hgo : ∀ (s : List Char) (w : Word) (rest : List Char),
      lex .quotes (some w) (s.flatMap (fun c =>
        if c = quoteMark then [quoteMark, '\\', quoteMark, quoteMark] else [c]) ++
          quoteMark :: rest) = lex .outside (some (w ++ quoted s)) rest := by
    intro s
    induction s with
    | nil => simp [quoted, lex_mark_close]
    | cons c s ih =>
      intro w rest
      rw [List.flatMap_cons]
      by_cases hc : c = quoteMark
      · subst hc
        rw [if_pos rfl]
        simp only [List.cons_append, List.nil_append]
        rw [lex_mark_close, lex_backslash, lex_mark, Option.getD_some, ih]
        simp [quoted]
      · rw [if_neg hc, List.append_assoc, List.singleton_append, lex_open _ hc, ih]
        simp [quoted]
  intro cur rest
  rw [quote, List.append_assoc, List.cons_append, lex_mark, List.singleton_append, hgo]

end Lex

/-- Codes with a blank between them are read as their words. -/
theorem lex_intercalate {α : Type*} {code : α → List Char} {word : α → Word}
    (h : ∀ a, Codes (code a) (word a)) (as : List α) :
    lex .outside none ([' '].intercalate (as.map code)) = some (as.map word) := by
  have hgo : ∀ (as : List α) (cur : Option Word),
      lex .outside cur (as.flatMap fun a => ' ' :: code a) = some (cur.toList ++ as.map word) := by
    intro as
    induction as with
    | nil => simp [lex]
    | cons a as ih =>
      intro cur
      rw [List.flatMap_cons, List.cons_append, lex_blank, h a, ih]
      simp
  cases as with
  | nil => rfl
  | cons a as =>
    rw [List.map_cons, Lines.intercalate_cons, h a, List.flatMap_map, hgo]
    simp

section Command

/-- The name of a variable, without quotes. -/
def validName (name : Word) : Bool :=
  name.all (fun c => !c.2 && (c.1.isAlphanum || c.1 = '_')) &&
    name.head?.any fun c => !c.1.isDigit

/-- The variable and the value of a word that sets one. -/
def assignment (w : Word) : Option (String × String) :=
  let name := w.takeWhile (· ≠ ('=', false))
  match w.dropWhile (· ≠ ('=', false)) with
  | [] => none
  | _ :: value => if validName name then some (text name, text value) else none

/-- The variables that a line sets and the words of its command. -/
def simpleCommand (line : String) : Option (List (String × String) × List String) :=
  (lex .outside none line.toList).map fun words =>
    ((words.takeWhile fun w => (assignment w).isSome).filterMap assignment,
      (words.dropWhile fun w => (assignment w).isSome).map text)

theorem text_quoted (s : List Char) : text (quoted s) = String.ofList s := by
  simp [text, quoted, Function.comp_def]

theorem text_bare (s : List Char) : text (bare s) = String.ofList s := by
  simp [text, bare, Function.comp_def]

/-- A quoted word sets no variable. -/
theorem assignment_quoted (s : List Char) : assignment (quoted s) = none := by
  have hdrop : (quoted s).dropWhile (· ≠ ('=', false)) = [] := by
    rw [List.dropWhile_eq_nil_iff]
    simp [quoted]
  rw [assignment, hdrop]

end Command

end MultiAi.ShellWords
