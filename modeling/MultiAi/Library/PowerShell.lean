import MultiAi.Library.Lines

/-! # Tokens of a PowerShell command

The call operator, plain words and single-quoted strings. Five characters act as the single
quote; in a string two of them in a row stand for the second, and one alone ends the string.
-/

namespace MultiAi.PowerShell

inductive Token where
  | call
  | bare (word : List Char)
  | literal (value : List Char)
  deriving DecidableEq

def quoteMark : Char := '\x27'

/-- The characters that act as a quote mark but are none. -/
def Typographic (c : Char) : Prop := c ∈ ['\u2018', '\u2019', '\u201A', '\u201B']

instance : DecidablePred Typographic := fun _ => inferInstanceAs (Decidable (_ ∈ _))

def IsQuote (c : Char) : Prop := c = quoteMark ∨ Typographic c

instance : DecidablePred IsQuote := fun _ => inferInstanceAs (Decidable (_ ∨ _))

def Plain (c : Char) : Prop := c.isAlphanum ∨ c = '-' ∨ c = '_'

instance : DecidablePred Plain := fun _ => inferInstanceAs (Decidable (_ ∨ _))

/-- What the last characters of a line put the next one in. -/
inductive Mode where
  | between
  | bare (word : List Char)
  | literal (value : List Char)
  | closing (value : List Char)

/-- A character between two tokens. -/
def start (c : Char) : Option (List Token × Mode) :=
  if c = ' ' ∨ c = '\t' then some ([], .between)
  else if c = '&' then some ([.call], .between)
  else if IsQuote c then some ([], .literal [])
  else if Plain c then some ([], .bare [c])
  else none

/-- Split a line into tokens; other kinds of tokens are not read. -/
def lex : Mode → List Char → Option (List Token)
  | .between, [] => some []
  | .bare w, [] => some [.bare w]
  | .literal _, [] => none
  | .closing w, [] => some [.literal w]
  | .between, c :: cs => (start c).bind fun x => (lex x.2 cs).map (x.1 ++ ·)
  | .bare w, c :: cs =>
    if Plain c then lex (.bare (w ++ [c])) cs
    else if c = ' ' ∨ c = '\t' then (lex .between cs).map (.bare w :: ·)
    else none
  | .literal w, c :: cs =>
    if IsQuote c then lex (.closing w) cs else lex (.literal (w ++ [c])) cs
  | .closing w, c :: cs =>
    if IsQuote c then lex (.literal (w ++ [c])) cs
    else (start c).bind fun x => (lex x.2 cs).map fun ts => .literal w :: (x.1 ++ ts)

/-- Double the quote mark. -/
def double (s : List Char) : List Char :=
  s.flatMap fun c => if c = quoteMark then [quoteMark, quoteMark] else [c]

def quote (s : List Char) : List Char := quoteMark :: (double s ++ [quoteMark])

section Lex

variable {w s rest tail : List Char} {ts : List Token} {c : Char}

theorem double_mark : double (quoteMark :: s) = quoteMark :: quoteMark :: double s := by
  simp [double]

theorem double_of_ne (h : c ≠ quoteMark) : double (c :: s) = c :: double s := by
  simp [double, h]

theorem Typographic.ne_mark (h : Typographic c) : c ≠ quoteMark := by
  rintro rfl
  exact absurd h (by decide)

theorem lex_literal_of_not (h : ¬ IsQuote c) :
    lex (.literal w) (c :: rest) = lex (.literal (w ++ [c])) rest := by
  rw [lex, if_neg h]

theorem lex_literal_quote (h : IsQuote c) :
    lex (.literal w) (c :: rest) = lex (.closing w) rest := by
  rw [lex, if_pos h]

theorem lex_closing_quote (h : IsQuote c) :
    lex (.closing w) (c :: rest) = lex (.literal (w ++ [c])) rest := by
  rw [lex, if_pos h]

theorem lex_literal_double_mark :
    lex (.literal w) (quoteMark :: quoteMark :: rest) = lex (.literal (w ++ [quoteMark])) rest := by
  rw [lex_literal_quote (.inl rfl), lex_closing_quote (.inl rfl)]

/-- Without the other quote characters, doubling keeps a string in one piece. -/
theorem lex_double (h : ∀ c ∈ s, ¬ Typographic c) :
    lex (.literal w) (double s ++ rest) = lex (.literal (w ++ s)) rest := by
  induction s generalizing w with
  | nil => simp [double]
  | cons c s ih =>
    obtain ⟨hc, hs⟩ := List.forall_mem_cons.mp h
    by_cases hm : c = quoteMark
    · subst hm
      rw [double_mark, List.cons_append, List.cons_append, lex_literal_double_mark, ih hs]
      simp
    · rw [double_of_ne hm, List.cons_append, lex_literal_of_not (not_or.mpr ⟨hm, hc⟩), ih hs]
      simp

/-- What was read of a string begins its value. -/
theorem prefix_of_lex {u : List Char} :
    (lex (.literal w) s = some (.literal u :: ts) → w <+: u) ∧
      (lex (.closing w) s = some (.literal u :: ts) → w <+: u) := by
  induction s generalizing w ts with
  | nil =>
    constructor
    · simp [lex]
    · intro h
      simp only [lex, Option.some.injEq, List.cons.injEq, Token.literal.injEq] at h
      exact h.1 ▸ List.prefix_rfl
  | cons c s ih =>
    constructor
    · intro h
      rw [lex] at h
      split at h
      · exact ih.2 h
      · exact (List.prefix_append _ _).trans (ih.1 h)
    · intro h
      rw [lex] at h
      split at h
      · exact (List.prefix_append _ _).trans (ih.1 h)
      · obtain ⟨x, -, hx⟩ := Option.bind_eq_some_iff.mp h
        obtain ⟨ts', -, hts⟩ := Option.map_eq_some_iff.mp hx
        simp only [List.cons.injEq, Token.literal.injEq] at hts
        exact hts.1 ▸ List.prefix_rfl

/-- A string that ends here has the value that was read. -/
theorem lex_closing_of_not {u : List Char} (h : ∀ c, rest.head? = some c → ¬ IsQuote c)
    (hl : lex (.closing w) rest = some (.literal u :: ts)) : u = w := by
  cases rest with
  | nil =>
    simp only [lex, Option.some.injEq, List.cons.injEq, Token.literal.injEq] at hl
    exact hl.1.symm
  | cons c rest =>
    rw [lex, if_neg (h c rfl)] at hl
    obtain ⟨x, -, hx⟩ := Option.bind_eq_some_iff.mp hl
    obtain ⟨ts', -, hts⟩ := Option.map_eq_some_iff.mp hx
    simp only [List.cons.injEq, Token.literal.injEq] at hts
    exact hts.1.symm

/-- The next character that is read is the first one owed. -/
theorem owed_of_lex {owed cs : List Char} (hne : owed ≠ [])
    (h : lex (.literal (w ++ [c])) cs = some (.literal (w ++ (owed ++ s)) :: ts)) :
    ∃ later, owed = c :: later := by
  obtain ⟨first, later, rfl⟩ := List.exists_cons_of_ne_nil hne
  have hp := prefix_of_lex.1 h
  rw [List.prefix_append_right_inj, List.cons_append, List.cons_prefix_cons] at hp
  exact ⟨later, by rw [hp.1]⟩

/-- Where one of the other quote characters was read as half of a pair, or as the end, the
value stays behind the string: only such characters are owed, and it never catches up. -/
theorem lex_ne_of_owed (htail : ∀ c, tail.head? = some c → ¬ IsQuote c) {owed : List Char}
    (hne : owed ≠ []) (ho : ∀ c ∈ owed, Typographic c) :
    lex (.closing w) (double s ++ quoteMark :: tail) ≠
        some (.literal (w ++ (owed ++ s)) :: ts) ∧
      lex (.literal w) (double s ++ quoteMark :: tail) ≠
        some (.literal (w ++ (owed ++ s)) :: ts) := by
  have hnot : ∀ {c w cs s ts} {owed : List Char}, owed ≠ [] → (∀ c ∈ owed, Typographic c) →
      ¬ Typographic c → lex (.literal (w ++ [c])) cs ≠ some (.literal (w ++ (owed ++ s)) :: ts) := by
    intro c w cs s ts owed hne ho hc h
    obtain ⟨later, rfl⟩ := owed_of_lex hne h
    exact hc (ho c List.mem_cons_self)
  have hmark : ¬ Typographic quoteMark := by decide
  induction s generalizing w owed ts with
  | nil =>
    constructor
    · rw [show double [] = [] from rfl, List.nil_append, lex_closing_quote (.inl rfl)]
      exact hnot hne ho hmark
    · rw [show double [] = [] from rfl, List.nil_append, lex_literal_quote (.inl rfl)]
      intro h
      have hw := lex_closing_of_not htail h
      exact hne (by simpa using hw)
  | cons d s ih =>
    by_cases hd : Typographic d
    · rw [double_of_ne hd.ne_mark, List.cons_append]
      constructor
      · rw [lex_closing_quote (.inr hd)]
        intro h
        obtain ⟨later, rfl⟩ := owed_of_lex hne h
        refine (@ih (w ++ [d]) ts (later ++ [d]) (by simp) ?_).2 (by simpa using h)
        intro e he
        rcases List.mem_append.mp he with he | he
        · exact ho e (List.mem_cons_of_mem _ he)
        · exact ho e (List.mem_singleton.mp he ▸ List.mem_cons_self)
      · rw [lex_literal_quote (.inr hd)]
        intro h
        refine (@ih w ts (owed ++ [d]) (by simp) ?_).1 (by simpa using h)
        intro e he
        rcases List.mem_append.mp he with he | he
        · exact ho e he
        · exact List.mem_singleton.mp he ▸ hd
    by_cases hm : d = quoteMark
    · subst hm
      rw [double_mark, List.cons_append, List.cons_append]
      constructor
      · rw [lex_closing_quote (.inl rfl)]
        exact hnot hne ho hmark
      · rw [lex_literal_double_mark]
        exact hnot hne ho hmark
    · have hq : ¬ IsQuote d := not_or.mpr ⟨hm, hd⟩
      rw [double_of_ne hm, List.cons_append]
      constructor
      · intro h
        have hhead : ∀ e, (d :: (double s ++ quoteMark :: tail)).head? = some e →
            ¬ IsQuote e := by
          rintro e ⟨⟩
          exact hq
        simpa using lex_closing_of_not hhead h
      · rw [lex_literal_of_not hq]
        exact hnot hne ho hd

/-- A string whose code is read as itself has none of the other quote characters. -/
theorem not_typographic_of_lex (htail : ∀ c, tail.head? = some c → ¬ IsQuote c)
    (h : lex (.literal w) (double s ++ quoteMark :: tail) = some (.literal (w ++ s) :: ts)) :
    ∀ c ∈ s, ¬ Typographic c := by
  induction s generalizing w with
  | nil => simp
  | cons d s ih =>
    have hs : w ++ d :: s = w ++ [d] ++ s := by simp
    by_cases hd : Typographic d
    · rw [double_of_ne hd.ne_mark, List.cons_append, lex_literal_quote (.inr hd)] at h
      exact absurd h (lex_ne_of_owed htail (List.cons_ne_nil d []) (by simpa using hd)).1
    refine List.forall_mem_cons.mpr ⟨hd, ?_⟩
    by_cases hm : d = quoteMark
    · subst hm
      rw [double_mark, List.cons_append, List.cons_append, lex_literal_double_mark, hs] at h
      exact ih h
    · rw [double_of_ne hm, List.cons_append, lex_literal_of_not (not_or.mpr ⟨hm, hd⟩), hs] at h
      exact ih h

end Lex

section Words

variable {w rest : List Char} {c : Char} {ts : List Token}

/-- A word that needs no quotes. -/
def PlainWord (w : List Char) : Prop := w ≠ [] ∧ ∀ c ∈ w, Plain c

instance : DecidablePred PlainWord := fun w =>
  have := List.decidableBAll Plain w
  inferInstanceAs (Decidable (_ ∧ _))

/-- A word as an argument, quoted unless it is plain. -/
def code (w : List Char) : List Char := if PlainWord w then w else quote w

/-- What the argument should be read as. -/
def token (w : List Char) : Token := if PlainWord w then .bare w else .literal w

theorem Plain.not_typographic (h : Plain c) : ¬ Typographic c := by
  intro ht
  simp only [Typographic, List.mem_cons, List.not_mem_nil, or_false] at ht
  rcases ht with rfl | rfl | rfl | rfl <;> exact absurd h (by decide)

theorem Plain.start (h : Plain c) : start c = some ([], .bare [c]) := by
  have hb : ¬ (c = ' ' ∨ c = '\t') := by
    rintro (rfl | rfl) <;> exact absurd h (by decide)
  have ha : c ≠ '&' := by
    rintro rfl
    exact absurd h (by decide)
  have hq : ¬ IsQuote c := by
    rintro (rfl | ht)
    · exact absurd h (by decide)
    · exact h.not_typographic ht
  rw [PowerShell.start, if_neg hb, if_neg ha, if_neg hq, if_pos h]

/-- The line ends, or a blank follows. -/
def AtEnd (rest : List Char) : Prop := ∀ c, rest.head? = some c → c = ' '

theorem AtEnd.not_quote (h : AtEnd rest) : ∀ c, rest.head? = some c → ¬ IsQuote c := by
  rintro c hc
  rw [h c hc]
  decide

theorem lex_blank : lex .between (' ' :: rest) = lex .between rest := by
  rw [lex, start, if_pos (.inl rfl), Option.bind_some]
  simp

theorem lex_closing (h : AtEnd rest) :
    lex (.closing w) rest = (lex .between rest).map (.literal w :: ·) := by
  cases rest with
  | nil => rfl
  | cons c rest =>
    obtain rfl : c = ' ' := h c rfl
    rw [lex_blank, lex, if_neg (by decide), start, if_pos (.inl rfl), Option.bind_some]
    simp

theorem lex_bare (h : AtEnd rest) :
    lex (.bare w) rest = (lex .between rest).map (.bare w :: ·) := by
  cases rest with
  | nil => rfl
  | cons c rest =>
    obtain rfl : c = ' ' := h c rfl
    rw [lex_blank, lex, if_neg (by decide), if_pos (.inl rfl)]

theorem lex_plain (h : PlainWord w) (hr : AtEnd rest) :
    lex .between (w ++ rest) = (lex .between rest).map (.bare w :: ·) := by
  have hgo : ∀ (s v : List Char), (∀ c ∈ s, Plain c) →
      lex (.bare v) (s ++ rest) = (lex .between rest).map (.bare (v ++ s) :: ·) := by
    intro s
    induction s with
    | nil => simpa using fun v => lex_bare hr
    | cons c s ih =>
      intro v hs
      obtain ⟨hc, hs⟩ := List.forall_mem_cons.mp hs
      rw [List.cons_append, lex, if_pos hc, ih _ hs]
      simp
  obtain ⟨hne, hp⟩ := h
  cases w with
  | nil => exact absurd rfl hne
  | cons c w =>
    obtain ⟨hc, hw⟩ := List.forall_mem_cons.mp hp
    rw [List.cons_append, lex, hc.start, Option.bind_some, hgo w [c] hw]
    simp [Function.comp_def]

theorem lex_open_quote : lex .between (quoteMark :: rest) = lex (.literal []) rest := by
  rw [lex, start, if_neg (by decide), if_neg (by decide), if_pos (.inl rfl), Option.bind_some]
  simp

theorem lex_quote (h : ∀ c ∈ w, ¬ Typographic c) (hr : AtEnd rest) :
    lex .between (quote w ++ rest) = (lex .between rest).map (.literal w :: ·) := by
  rw [quote, List.cons_append, lex_open_quote, List.append_assoc, lex_double h,
    List.singleton_append, lex_literal_quote (.inl rfl), List.nil_append, lex_closing hr]

/-- A quoted word and what follows it are read right exactly when the word has none of the
other quote characters and the rest is read right. -/
theorem lex_quote_iff (hr : AtEnd rest) :
    lex .between (quote w ++ rest) = some (.literal w :: ts) ↔
      (∀ c ∈ w, ¬ Typographic c) ∧ lex .between rest = some ts := by
  constructor
  · intro h
    have hw : ∀ c ∈ w, ¬ Typographic c := by
      rw [quote, List.cons_append, lex_open_quote, List.append_assoc, List.singleton_append] at h
      exact not_typographic_of_lex hr.not_quote h
    rw [lex_quote hw hr, Option.map_eq_some_iff] at h
    obtain ⟨ts', hts, heq⟩ := h
    exact ⟨hw, hts.trans (congrArg some (List.cons.inj heq).2)⟩
  · rintro ⟨hw, hts⟩
    rw [lex_quote hw hr, hts, Option.map_some]

theorem lex_code_iff (hr : AtEnd rest) :
    lex .between (code w ++ rest) = some (token w :: ts) ↔
      (∀ c ∈ w, ¬ Typographic c) ∧ lex .between rest = some ts := by
  by_cases h : PlainWord w
  · rw [code, token, if_pos h, if_pos h, lex_plain h hr, Option.map_eq_some_iff]
    constructor
    · rintro ⟨ts', hts, heq⟩
      exact ⟨fun c hc => (h.2 c hc).not_typographic,
        hts.trans (congrArg some (List.cons.inj heq).2)⟩
    · rintro ⟨-, hts⟩
      exact ⟨ts, hts, rfl⟩
  · rw [code, token, if_neg h, if_neg h, lex_quote_iff hr]

/-- A list of arguments, each after a blank. -/
theorem lex_flatMap_iff (ws : List (List Char)) :
    lex .between (ws.flatMap fun w => ' ' :: code w) = some (ws.map token) ↔
      ∀ w ∈ ws, ∀ c ∈ w, ¬ Typographic c := by
  induction ws with
  | nil => simp [lex]
  | cons w ws ih =>
    have hend : AtEnd (ws.flatMap fun w => ' ' :: code w) := by
      cases ws with
      | nil => simp [AtEnd]
      | cons v ws => simp [AtEnd]
    rw [List.flatMap_cons, List.cons_append, lex_blank, List.map_cons, lex_code_iff hend, ih,
      List.forall_mem_cons]

/-- A call of a quoted program with arguments. -/
theorem lex_call_iff (path : List Char) (ws : List (List Char)) :
    lex .between ('&' :: ' ' :: (quote path ++ ' ' :: [' '].intercalate (ws.map code))) =
      some (.call :: .literal path :: ws.map token) ↔
      ∀ w ∈ path :: ws, ∀ c ∈ w, ¬ Typographic c := by
  have hcall : ∀ rest, lex .between ('&' :: rest) = (lex .between rest).map (.call :: ·) := by
    intro rest
    rw [lex, start, if_neg (by decide), if_pos rfl, Option.bind_some]
    simp
  have hend : AtEnd (' ' :: [' '].intercalate (ws.map code)) := fun c hc => (Option.some.inj hc).symm
  have hargs : lex .between (' ' :: [' '].intercalate (ws.map code)) =
      lex .between (ws.flatMap fun w => ' ' :: code w) := by
    cases ws with
    | nil => rw [List.map_nil, List.intercalate_nil, lex_blank, List.flatMap_nil]
    | cons w ws =>
      rw [List.map_cons, Lines.intercalate_cons, List.flatMap_map, List.flatMap_cons]
      rfl
  have hinj : ∀ ts : Option (List Token), ts.map (.call :: ·) =
      some (.call :: .literal path :: ws.map token) ↔ ts = some (.literal path :: ws.map token) := by
    intro ts
    cases ts <;> simp
  rw [hcall, lex_blank, hinj, lex_quote_iff hend, hargs, lex_flatMap_iff, List.forall_mem_cons]

end Words

end MultiAi.PowerShell
