import Mathlib
import MultiAi.Library.Pieces
import MultiAi.Ssh.HostKey

/-! # Host patterns

A pattern describes the names that it matches piece by piece, whatever way the matcher goes
through them; and a list of patterns is a set of those that allow a name and of those that
refuse it.
-/

namespace MultiAi.Patterns

open Pieces

/-- The piece that a character of a pattern takes. -/
def Takes (c : Char) (piece : List Char) : Prop :=
  if c = '*' then True else if c = '?' then piece.length = 1 else piece = [c]

/-- The same with the case of letters ignored. -/
def TakesLetter (c : Char) (piece : List Char) : Prop :=
  if c = '*' then True
  else if c = '?' then piece.length = 1
  else ∃ d, piece = [d] ∧ d.toLower = c.toLower

def Globs (pattern text : List Char) : Prop := Cut Takes pattern text

def GlobsLetters (pattern text : List Char) : Prop := Cut TakesLetter pattern text

/-- Some pattern of a list that is not negated matches, and no negated one does. -/
def Applies (matched : List Char → Prop) (list : List String) : Prop :=
  (∃ p ∈ list, p.toList.head? ≠ some '!' ∧ matched p.toList) ∧
    ∀ p ∈ list, ∀ rest, p.toList = '!' :: rest → ¬ matched rest

variable {pattern text : List Char} {matched matched' : List Char → Prop} {list list' : List String}

theorem glob_star (rest : List Char) :
    glob ('*' :: rest) text = true ↔ ∃ suffix, suffix <:+ text ∧ glob rest suffix = true := by
  simp only [glob, List.any_eq_true, List.mem_tails]

theorem glob_mark (rest : List Char) :
    glob ('?' :: rest) text = true ↔ ∃ d later, text = d :: later ∧ glob rest later = true := by
  cases text <;> simp [glob]

theorem glob_char {c : Char} (hstar : c ≠ '*') (hmark : c ≠ '?') (rest : List Char) :
    glob (c :: rest) text = true ↔ ∃ later, text = c :: later ∧ glob rest later = true := by
  cases text with
  | nil => simp [glob]
  | cons d text =>
    simp only [glob, Bool.and_eq_true, decide_eq_true_eq, List.cons.injEq, eq_comm (a := c)]
    constructor
    · rintro ⟨rfl, h⟩
      exact ⟨text, ⟨rfl, rfl⟩, h⟩
    · rintro ⟨_, ⟨rfl, rfl⟩, h⟩
      exact ⟨rfl, h⟩

/-- The matcher finds the pieces wherever they are cut. -/
theorem glob_iff : glob pattern text = true ↔ Globs pattern text := by
  induction pattern generalizing text with
  | nil => rw [Globs, cut_nil, glob, List.isEmpty_iff]
  | cons c rest ih =>
    rw [Globs, cut_cons]
    simp only [← Globs.eq_1, ← ih]
    by_cases hstar : c = '*'
    · subst hstar
      rw [glob_star]
      constructor
      · rintro ⟨suffix, ⟨piece, rfl⟩, h⟩
        exact ⟨piece, suffix, trivial, h, rfl⟩
      · rintro ⟨piece, suffix, -, h, rfl⟩
        exact ⟨suffix, List.suffix_append piece suffix, h⟩
    by_cases hmark : c = '?'
    · subst hmark
      rw [glob_mark]
      constructor
      · rintro ⟨d, later, rfl, h⟩
        exact ⟨[d], later, rfl, h, rfl⟩
      · rintro ⟨piece, later, hone, h, rfl⟩
        obtain ⟨d, rfl⟩ := List.length_eq_one_iff.mp hone
        exact ⟨d, later, rfl, h⟩
    · rw [glob_char hstar hmark]
      simp only [Takes, if_neg hstar, if_neg hmark]
      constructor
      · rintro ⟨later, rfl, h⟩
        exact ⟨[c], later, rfl, h, rfl⟩
      · rintro ⟨_, later, rfl, h, rfl⟩
        exact ⟨later, rfl, h⟩

/-- A pattern without `*` and `?` matches itself only. -/
theorem globs_iff_eq (hstar : '*' ∉ pattern) (hmark : '?' ∉ pattern) :
    Globs pattern text ↔ text = pattern := by
  have hone : ∀ c ∈ pattern, ∀ piece, Takes c piece ↔ piece = [id c] := by
    intro c hc piece
    have hs : c ≠ '*' := fun h => hstar (h ▸ hc)
    have hm : c ≠ '?' := fun h => hmark (h ▸ hc)
    rw [Takes, if_neg hs, if_neg hm, id]
  rw [Globs, cut_singleton hone, List.map_id]

section Letters

theorem toLower_cases (c : Char) : c.toLower = c ∨ c.toLower.isLower = true := by
  rw [Char.toLower]
  split
  · rename_i h
    right
    simp only [Char.isLower, ge_iff_le, UInt32.le_iff_toNat_le, UInt32.toNat_add] at h ⊢
    simp at h ⊢
    omega
  · exact Or.inl rfl

theorem toLower_of_isLower {c : Char} (h : c.isLower = true) : c.toLower = c := by
  rw [Char.toLower, dif_neg]
  simp [Char.isLower, UInt32.le_iff_toNat_le] at h ⊢
  omega

theorem toLower_of_isDigit {c : Char} (h : c.isDigit = true) : c.toLower = c := by
  rw [Char.toLower, dif_neg]
  simp [Char.isDigit, UInt32.le_iff_toNat_le] at h ⊢
  omega

theorem isDigit_of_mem_toString {n : ℕ} {c : Char} (h : c ∈ (toString n).toList) :
    c.isDigit = true := by
  have hdigits : (toString n).toList = Nat.toDigits 10 n := String.toList_ofList
  rw [hdigits] at h
  exact Nat.isDigit_of_mem_toDigits (by decide) (by decide) h

/-- No letter becomes a mark of a pattern. -/
theorem toLower_eq_iff {c d : Char} (hd : d.isLower = false) (hfix : d.toLower = d) :
    c.toLower = d ↔ c = d := by
  constructor
  · rintro rfl
    rcases toLower_cases c with h | h
    · exact h.symm
    · rw [hd] at h
      cases h
  · rintro rfl
    exact hfix

/-- A pattern is made lowercase to match a name that is. -/
theorem globs_toLower :
    Globs (pattern.map Char.toLower) (text.map Char.toLower) ↔ GlobsLetters pattern text := by
  rw [Globs, cut_map, cut_map_text, GlobsLetters]
  refine cut_congr fun c _ piece => ?_
  have hstar : c.toLower = '*' ↔ c = '*' := toLower_eq_iff (by decide) (by decide)
  have hmark : c.toLower = '?' ↔ c = '?' := toLower_eq_iff (by decide) (by decide)
  simp only [Takes, TakesLetter, hstar, hmark, List.length_map, List.map_eq_singleton_iff]

end Letters

theorem Applies.congr (h : ∀ p, matched p ↔ matched' p) :
    Applies matched list ↔ Applies matched' list := by
  simp only [Applies, h]

/-- A list is used as the set of its patterns. -/
theorem applies_of_mem (h : ∀ p, p ∈ list ↔ p ∈ list') :
    Applies matched list ↔ Applies matched list' := by
  simp only [Applies, h]

theorem patternsMatch_iff_applies : patternsMatch text false list = true ↔
    Applies (fun p => Globs (p.map Char.toLower) text) list := by
  simp only [patternsMatch_iff, Applies, ← glob_iff, Bool.false_eq_true, false_or,
    Bool.not_eq_true]

/-- The name of a host with the case of its letters kept: see `hostName`. -/
def shownName (host : String) (port : UInt16) : String :=
  if port = 22 then host else "[" ++ host ++ "]:" ++ toString port.toNat

theorem hostName_eq (host : String) (port : UInt16) :
    (hostName host port).toList = (shownName host port).toList.map Char.toLower := by
  have hhost : host.toLower.toList = host.toList.map Char.toLower := by
    rw [String.toLower, String.toList_map]
  have hport : (toString port.toNat).toList.map Char.toLower = (toString port.toNat).toList := by
    rw [List.map_congr_left fun c hc => toLower_of_isDigit (isDigit_of_mem_toString hc),
      List.map_id']
  rw [hostName, shownName]
  split_ifs
  · exact hhost
  · simp only [String.toList_append, List.map_append, hhost, hport]
    rfl

/-- A pattern matches the texts that it describes piece by piece. A list applies to a name just
if one of its patterns that is not negated matches, and no negated one does: patterns are made
lowercase, so that the case of letters means nothing for the names that hosts are looked up by.
The order of a list and what it repeats mean nothing. -/
theorem matches_meaning {κ α : Type} (lib : SshLib κ α) :
    (∀ pattern text, glob pattern text = true ↔ Globs pattern text) ∧
    (∀ list name, hostMatches lib (.patterns list) name = true ↔
      Applies (fun p => Globs (p.map Char.toLower) name.toList) list) ∧
    (∀ list host port, hostMatches lib (.patterns list) (hostName host port) = true ↔
      Applies (fun p => GlobsLetters p (shownName host port).toList) list) ∧
    (∀ list list' name, (∀ p, p ∈ list ↔ p ∈ list') →
      hostMatches lib (.patterns list) name = hostMatches lib (.patterns list') name) ∧
    ∀ pattern text, '*' ∉ pattern → '?' ∉ pattern → (glob pattern text = true ↔ text = pattern) := by
  have hlist (list : List String) (name : String) : hostMatches lib (.patterns list) name = true ↔
      Applies (fun p => Globs (p.map Char.toLower) name.toList) list := patternsMatch_iff_applies
  refine ⟨fun _ _ => glob_iff, hlist, fun list host port => ?_, fun list list' name h => ?_,
    fun pattern text hstar hmark => glob_iff.trans (globs_iff_eq hstar hmark)⟩
  · rw [hlist, hostName_eq]
    exact Applies.congr fun p => globs_toLower
  · rw [Bool.eq_iff_iff, hlist, hlist]
    exact applies_of_mem h

end MultiAi.Patterns
