import Mathlib.Data.List.Forall2

/-! # Texts cut into pieces

A text is described by items, each of which takes a piece of it. The pieces are consecutive
and make up the whole text.
-/

namespace MultiAi.Pieces

variable {α β γ : Type*} {takes takes' : α → List β → Prop} {items : List α} {text : List β}

/-- A text can be cut into one piece for each item. -/
def Cut (takes : α → List β → Prop) (items : List α) (text : List β) : Prop :=
  ∃ pieces, List.Forall₂ takes items pieces ∧ pieces.flatten = text

theorem cut_nil : Cut takes [] text ↔ text = [] := by
  constructor
  · rintro ⟨pieces, h, rfl⟩
    cases h
    rfl
  · rintro rfl
    exact ⟨[], .nil, rfl⟩

/-- The first item takes the first piece. -/
theorem cut_cons {a : α} : Cut takes (a :: items) text ↔
    ∃ piece rest, takes a piece ∧ Cut takes items rest ∧ piece ++ rest = text := by
  constructor
  · rintro ⟨pieces, h, rfl⟩
    cases h with
    | cons ha h => exact ⟨_, _, ha, ⟨_, h, rfl⟩, rfl⟩
  · rintro ⟨piece, rest, ha, ⟨pieces, h, rfl⟩, rfl⟩
    exact ⟨piece :: pieces, .cons ha h, rfl⟩

theorem cut_append {items' : List α} : Cut takes (items ++ items') text ↔
    ∃ front rest, Cut takes items front ∧ Cut takes items' rest ∧ front ++ rest = text := by
  induction items generalizing text with
  | nil => simp [cut_nil]
  | cons a items ih =>
    simp only [List.cons_append, cut_cons, ih]
    constructor
    · rintro ⟨piece, _, ha, ⟨front, rest, hfront, hrest, rfl⟩, rfl⟩
      exact ⟨_, rest, ⟨piece, front, ha, hfront, rfl⟩, hrest, List.append_assoc ..⟩
    · rintro ⟨_, rest, ⟨piece, front, ha, hfront, rfl⟩, hrest, rfl⟩
      exact ⟨piece, _, ha, ⟨front, rest, hfront, hrest, rfl⟩, (List.append_assoc ..).symm⟩

theorem cut_concat {a : α} {piece : List β} (h : Cut takes items text) (ha : takes a piece) :
    Cut takes (items ++ [a]) (text ++ piece) :=
  cut_append.mpr ⟨text, piece, h, cut_cons.mpr ⟨piece, [], ha, cut_nil.mpr rfl,
    List.append_nil _⟩, rfl⟩

theorem cut_congr (h : ∀ a ∈ items, ∀ piece, takes a piece ↔ takes' a piece) :
    Cut takes items text ↔ Cut takes' items text := by
  induction items generalizing text with
  | nil => rw [cut_nil, cut_nil]
  | cons a items ih =>
    have hrest := fun rest => @ih rest fun b hb => h b (List.mem_cons_of_mem _ hb)
    simp only [cut_cons, h a List.mem_cons_self, hrest]

theorem cut_map (f : γ → α) {items : List γ} :
    Cut takes (items.map f) text ↔ Cut (fun c => takes (f c)) items text := by
  simp only [Cut, List.forall₂_map_left_iff]

/-- A changed text is cut where the text is. -/
theorem cut_map_text (f : γ → β) {text : List γ} :
    Cut takes items (text.map f) ↔ Cut (fun a piece => takes a (piece.map f)) items text := by
  induction items generalizing text with
  | nil => rw [cut_nil, cut_nil, List.map_eq_nil_iff]
  | cons a items ih =>
    simp only [cut_cons]
    constructor
    · rintro ⟨piece, rest, ha, h, heq⟩
      obtain ⟨piece, rest, rfl, rfl, rfl⟩ := List.append_eq_map_iff.mp heq
      exact ⟨piece, rest, ha, ih.mp h, rfl⟩
    · rintro ⟨piece, rest, ha, h, rfl⟩
      exact ⟨piece.map f, rest.map f, ha, ih.mpr h, List.map_append.symm⟩

/-- Items that take one thing each describe one text. -/
theorem cut_singleton {f : α → β} (h : ∀ a ∈ items, ∀ piece, takes a piece ↔ piece = [f a]) :
    Cut takes items text ↔ text = items.map f := by
  induction items generalizing text with
  | nil => exact cut_nil
  | cons a items ih =>
    have hrest := fun rest => @ih rest fun b hb => h b (List.mem_cons_of_mem _ hb)
    simp only [cut_cons, h a List.mem_cons_self, hrest, List.map_cons]
    constructor
    · rintro ⟨_, _, rfl, rfl, rfl⟩
      rfl
    · rintro rfl
      exact ⟨_, _, rfl, rfl, rfl⟩

end MultiAi.Pieces
