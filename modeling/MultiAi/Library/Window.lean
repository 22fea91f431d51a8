import Mathlib.Data.List.Infix
import Mathlib.Order.Nat
import MultiAi.Library.Pieces

/-! # The end of a text within a limit

Only so much of a text is kept as its limit allows, counted from its end. Where some items of the
text were torn into marks, the window says whether that shows.
-/

namespace MultiAi.Window

open Pieces

variable {α : Type*} (w : α → ℕ) (limit : ℕ)

def size : List α → ℕ
  | [] => 0
  | a :: as => w a + size as

/-- The longest end of a text within a limit. -/
def window : List α → List α
  | [] => []
  | a :: as => if size w (a :: as) ≤ limit then a :: as else window as

/-- An end of a text is the longest one within a limit. -/
structure Longest (text kept : List α) : Prop where
  suffix : kept <:+ text
  fits : size w kept ≤ limit
  longest : ∀ other, other <:+ text → size w other ≤ limit → other.length ≤ kept.length

variable {w limit} {as bs text kept : List α} {a r : α}

@[simp] theorem size_append (as bs : List α) : size w (as ++ bs) = size w as + size w bs := by
  induction as with
  | nil => exact (Nat.zero_add _).symm
  | cons a as ih => rw [List.cons_append, size, size, ih, Nat.add_assoc]

@[simp] theorem size_replicate (n : ℕ) (a : α) : size w (List.replicate n a) = n * w a := by
  induction n with
  | zero => exact (Nat.zero_mul _).symm
  | succ n ih => rw [List.replicate_succ, size, ih, Nat.succ_mul, Nat.add_comm]

theorem window_suffix (as : List α) : window w limit as <:+ as := by
  induction as with
  | nil => exact List.suffix_rfl
  | cons a as ih =>
    rw [window]
    split_ifs
    · exact List.suffix_rfl
    · exact ih.trans (List.suffix_cons a as)

theorem size_window_le (as : List α) : size w (window w limit as) ≤ limit := by
  induction as with
  | nil => exact Nat.zero_le limit
  | cons a as ih =>
    rw [window]
    split_ifs with h
    · exact h
    · exact ih

theorem suffix_window (h : bs <:+ as) (hfits : size w bs ≤ limit) :
    bs <:+ window w limit as := by
  induction as with
  | nil => exact h
  | cons a as ih =>
    rw [window]
    split_ifs with hall
    · exact h
    · rcases List.suffix_cons_iff.mp h with rfl | h
      · exact absurd hfits hall
      · exact ih h

theorem longest_iff : Longest w limit text kept ↔ kept = window w limit text := by
  constructor
  · intro h
    refine (suffix_window h.suffix h.fits).eq_of_length_le ?_
    exact h.longest _ (window_suffix text) (size_window_le text)
  · rintro rfl
    exact ⟨window_suffix text, size_window_le text, fun _ hs hfits =>
      (suffix_window hs hfits).length_le⟩

theorem window_of_fits (h : size w as ≤ limit) : window w limit as = as := by
  cases as with
  | nil => rfl
  | cons a as => rw [window, if_pos h]

/-- An end of two texts is an end of the second, or contains it. -/
theorem suffix_append_iff {cs : List α} :
    cs <:+ as ++ bs ↔ cs <:+ bs ∨ ∃ front, front <:+ as ∧ cs = front ++ bs := by
  constructor
  · intro h
    rcases List.suffix_or_suffix_of_suffix h (List.suffix_append as bs) with h' | ⟨front, rfl⟩
    · exact Or.inl h'
    · exact Or.inr ⟨front, List.suffix_append_self_iff.mp h, rfl⟩
  · rintro (h | ⟨front, h, rfl⟩)
    · exact List.suffix_append_of_suffix h
    · exact List.suffix_append_self_iff.mpr h

/-- What was cut off is not missed later. -/
theorem window_append_window :
    window w limit (window w limit as ++ bs) = window w limit (as ++ bs) := by
  have hle := @window_suffix _ w limit (as ++ bs)
  have hfits := @size_window_le _ w limit (as ++ bs)
  have hone : window w limit (window w limit as ++ bs) <:+ window w limit (as ++ bs) := by
    refine suffix_window ((window_suffix _).trans ?_) (size_window_le _)
    exact List.suffix_append_self_iff.mpr (window_suffix as)
  refine hone.eq_of_length_le (List.IsSuffix.length_le (suffix_window ?_ hfits))
  rcases suffix_append_iff.mp hle with h | ⟨front, h, heq⟩
  · exact List.suffix_append_of_suffix h
  · rw [heq, size_append] at hfits
    rw [heq]
    exact List.suffix_append_self_iff.mpr (suffix_window h (by omega))

theorem window_append_of_lt (h : limit < size w bs) :
    window w limit (as ++ bs) = window w limit bs := by
  induction as with
  | nil => rfl
  | cons a as ih =>
    rw [List.cons_append, window, if_neg, ih]
    rw [size, size_append]
    omega

/-- An end that fits without the item before it is the window. -/
theorem window_append_of_fits (hfits : size w bs ≤ limit)
    (hlast : ∀ a ∈ as.getLast?, limit < w a + size w bs) : window w limit (as ++ bs) = bs := by
  obtain ⟨front, hfront⟩ := suffix_window (List.suffix_append as bs) hfits
  have hsuffix := @window_suffix _ w limit (as ++ bs)
  have hsize := @size_window_le _ w limit (as ++ bs)
  rw [← hfront] at hsuffix hsize ⊢
  cases front using List.reverseRecOn with
  | nil => rfl
  | append_singleton front a =>
    obtain ⟨early, rfl⟩ := List.suffix_append_self_iff.mp hsuffix
    have hlt := hlast a (by simp)
    simp only [size_append, size] at hsize
    omega

section Torn

variable (w limit) (r)

/-- A torn item shows as two or more marks, any other as itself. -/
def Shows (item : α × Bool) (piece : List α) : Prop :=
  if item.2 then ∃ n, 2 ≤ n ∧ piece = List.replicate n r else piece = [item.1]

/-- How many marks have room before a text. -/
def room (after : List α) : ℕ := (limit - size w after) / w r

/-- What stands before a text shows as marks only, as many as have room: the item before them does
not fit. -/
def Unseen (before after : List α) : Prop :=
  ∃ early, before = early ++ List.replicate (room w limit r after) r ∧
    ∀ a ∈ early.getLast?, limit < w a + size w (List.replicate (room w limit r after) r ++ after)

variable {w limit r} {ps : List (α × Bool)} {shown before after early : List α} {n : ℕ} {c : α}

/-- Marks at the end of a text are shown at its end. -/
theorem cut_shows_replicate (h : Cut (Shows r) ps shown)
    (hrun : ps.map Prod.fst = early ++ List.replicate n r) :
    ∃ front, shown = front ++ List.replicate n r := by
  induction n generalizing ps shown with
  | zero => exact ⟨shown, (List.append_nil shown).symm⟩
  | succ n ih =>
    rw [List.replicate_succ', ← List.append_assoc] at hrun
    obtain ⟨ps, last, rfl, hps, hlast⟩ := List.map_eq_append_iff.mp hrun
    obtain ⟨⟨c, torn⟩, rfl, rfl⟩ := List.map_eq_singleton_iff.mp hlast
    obtain ⟨rest, piece, hrest, hpiece, rfl⟩ := cut_append.mp h
    obtain ⟨front, rfl⟩ := ih hrest hps
    obtain ⟨piece, _, hshows, hnil, rfl⟩ := cut_cons.mp hpiece
    cases cut_nil.mp hnil
    cases torn with
    | false =>
      have hone : piece = [c] := hshows
      exact ⟨front, by rw [hone, List.replicate_succ']; simp⟩
    | true =>
      obtain ⟨k, hk, rfl⟩ := (hshows : ∃ n, 2 ≤ n ∧ piece = List.replicate n c)
      refine ⟨front ++ List.replicate (k - 1) c, ?_⟩
      rw [List.append_nil, List.append_assoc, List.append_assoc, List.replicate_append_replicate,
        List.replicate_append_replicate, show k - 1 + (n + 1) = n + k by omega]

/-- A torn item shows as one more mark. -/
theorem cut_shows_torn (h : Cut (Shows r) (ps ++ [(c, true)]) shown)
    (hrun : ps.map Prod.fst ++ [c] = early ++ List.replicate n r) :
    ∃ front, shown = front ++ List.replicate (n + 1) r := by
  obtain ⟨rest, piece, hrest, hpiece, rfl⟩ := cut_append.mp h
  obtain ⟨piece, _, hshows, hnil, rfl⟩ := cut_cons.mp hpiece
  cases cut_nil.mp hnil
  obtain ⟨k, hk, rfl⟩ := (hshows : ∃ n, 2 ≤ n ∧ piece = List.replicate n r)
  rw [List.append_nil]
  cases n with
  | zero =>
    refine ⟨rest ++ List.replicate (k - 1) r, ?_⟩
    rw [List.append_assoc, List.replicate_append_replicate, show k - 1 + (0 + 1) = k by omega]
  | succ n =>
    rw [List.replicate_succ', ← List.append_assoc] at hrun
    obtain ⟨front, rfl⟩ := cut_shows_replicate hrest (List.append_inj_left' hrun rfl)
    refine ⟨front ++ List.replicate (k - 2) r, ?_⟩
    rw [List.append_assoc, List.append_assoc, List.replicate_append_replicate,
      List.replicate_append_replicate, show k - 2 + (n + 1 + 1) = n + k by omega]

/-- Where one text ends with one more mark than the other, they have nothing but marks in common
at their ends. -/
theorem eq_replicate_of_suffix {common : List α} (h : common <:+ before) (h' : common <:+ shown)
    (hmore : ∀ early n, before = early ++ List.replicate n r →
      ∃ front, shown = front ++ List.replicate (n + 1) r) :
    common = List.replicate common.length r := by
  have hruns : ∀ n ≤ common.length, List.replicate n r <:+ common := by
    intro n
    induction n with
    | zero => exact fun _ => List.nil_suffix
    | succ n ih =>
      intro hn
      obtain ⟨early, hearly⟩ := (ih (by omega)).trans h
      obtain ⟨front, hfront⟩ := hmore early n hearly.symm
      refine List.suffix_of_suffix_length_le ⟨front, hfront.symm⟩ h' ?_
      rwa [List.length_replicate]
  exact ((hruns _ le_rfl).eq_of_length List.length_replicate).symm

theorem room_eq {m : ℕ} (hfits : m * w r + size w after ≤ limit)
    (hnext : limit < (m + 1) * w r + size w after) : room w limit r after = m := by
  refine Nat.div_eq_of_lt_le ?_ ?_ <;> omega

theorem room_fits (h : size w after ≤ limit) :
    size w (List.replicate (room w limit r after) r ++ after) ≤ limit := by
  have hdiv := Nat.div_mul_le_self (limit - size w after) (w r)
  rw [size_append, size_replicate, room]
  omega

theorem lt_room (hr : 0 < w r) :
    limit < w r + size w (List.replicate (room w limit r after) r ++ after) := by
  have hdiv := Nat.lt_div_mul_add (a := limit - size w after) hr
  rw [size_append, size_replicate, room]
  omega

theorem Unseen.of_lt (h : limit < size w after) : Unseen w limit r before after := by
  have hroom : room w limit r after = 0 := by
    rw [room, Nat.sub_eq_zero_of_le h.le, Nat.zero_div]
  refine ⟨before, by rw [hroom, List.replicate_zero, List.append_nil], fun a _ => ?_⟩
  rw [hroom, List.replicate_zero, List.nil_append]
  omega

/-- One more mark is seen exactly if what stands before is. -/
theorem window_eq_iff (hr : 0 < w r)
    (hmore : ∀ early n, before = early ++ List.replicate n r →
      ∃ front, shown = front ++ List.replicate (n + 1) r) :
    window w limit (before ++ after) = window w limit (shown ++ after) ↔
      Unseen w limit r before after := by
  rcases lt_or_ge limit (size w after) with hlt | hle
  · rw [window_append_of_lt hlt, window_append_of_lt hlt]
    exact iff_of_true rfl (.of_lt hlt)
  constructor
  · intro h
    obtain ⟨common, hcommon⟩ := suffix_window (List.suffix_append before after) hle
    have hbefore : common <:+ before := by
      rw [← List.suffix_append_self_iff, hcommon]
      exact window_suffix _
    have hshown : common <:+ shown := by
      rw [← List.suffix_append_self_iff, hcommon, h]
      exact window_suffix _
    have hmarks := eq_replicate_of_suffix hbefore hshown hmore
    obtain ⟨early, hearly⟩ := hbefore
    -- nothing longer fits in either text
    have hlong : ∀ {longer : List α}, longer <:+ before ∨ longer <:+ shown →
        size w (longer ++ after) ≤ limit → longer.length ≤ common.length := by
      intro longer hsuffix hfits
      have hlen : (longer ++ after).length ≤ (common ++ after).length := by
        rcases hsuffix with hsuffix | hsuffix
        · rw [hcommon]
          exact (suffix_window (List.suffix_append_self_iff.mpr hsuffix) hfits).length_le
        · rw [hcommon, h]
          exact (suffix_window (List.suffix_append_self_iff.mpr hsuffix) hfits).length_le
      rw [List.length_append, List.length_append] at hlen
      omega
    have hfits : size w (common ++ after) ≤ limit := hcommon ▸ size_window_le _
    have hroom : room w limit r after = common.length := by
      refine room_eq ?_ ?_
      · rw [hmarks, size_append, size_replicate] at hfits
        exact hfits
      · by_contra hno
        obtain ⟨front, hfront⟩ := hmore early common.length (by rw [← hmarks, hearly])
        have hle := @hlong (List.replicate (common.length + 1) r)
          (Or.inr ⟨front, hfront.symm⟩) (by rw [size_append, size_replicate]; omega)
        rw [List.length_replicate] at hle
        omega
    refine ⟨early, by rw [hroom, ← hmarks, hearly], fun a ha => ?_⟩
    rw [hroom, ← hmarks]
    by_contra hno
    obtain ⟨front, rfl⟩ := List.getLast?_eq_some_iff.mp ha
    have hle := @hlong (a :: common) (Or.inl ⟨front, by rw [← hearly]; simp⟩)
      (by rw [List.cons_append, size]; omega)
    rw [List.length_cons] at hle
    omega
  · rintro ⟨early, rfl, hlast⟩
    obtain ⟨front, rfl⟩ := hmore early _ rfl
    rw [List.append_assoc, window_append_of_fits (room_fits hle) hlast, List.replicate_succ,
      List.append_assoc, List.cons_append, ← List.singleton_append, ← List.append_assoc,
      window_append_of_fits (room_fits hle)]
    intro a ha
    rw [List.getLast?_concat] at ha
    cases ha
    exact lt_room hr

/-- What is unseen before a text is so before a longer one. -/
theorem Unseen.shorten {mid : List α} (h : Unseen w limit r (before ++ mid) after)
    (hle : size w after ≤ limit) (hr : 0 < w r) : Unseen w limit r before (mid ++ after) := by
  obtain ⟨early, heq, hlast⟩ := h
  have hfits := @room_fits _ w limit r after hle
  have hnext := @lt_room _ w limit r after hr
  generalize room w limit r after = m at heq hlast hfits hnext
  rw [size_append, size_replicate] at hfits hnext
  rcases List.append_eq_append_iff.mp heq with ⟨x, rfl, rfl⟩ | ⟨x, rfl, hmarks⟩
  · cases x using List.reverseRecOn with
    | nil =>
      have hroom : room w limit r (List.replicate m r ++ after) = 0 := by
        refine room_eq ?_ ?_ <;> rw [size_append, size_replicate] <;> omega
      rw [List.append_nil] at hlast
      rw [List.nil_append]
      refine ⟨before, by rw [hroom, List.replicate_zero, List.append_nil], ?_⟩
      rwa [hroom, List.replicate_zero, List.nil_append]
    | append_singleton x a =>
      -- the text is longer than the window
      have hlt := hlast a (by simp)
      rw [List.append_assoc, List.append_assoc]
      refine .of_lt ?_
      rw [size_append, size_append, size]
      omega
  · obtain ⟨hlen, hx, hmid⟩ := List.append_eq_replicate_iff.mp hmarks.symm
    have hroom : room w limit r (mid ++ after) = x.length := by
      have hm : x.length * w r + mid.length * w r = m * w r := by rw [← Nat.add_mul, hlen]
      rw [hmid]
      refine room_eq ?_ ?_ <;> rw [size_append, size_replicate]
      · omega
      · rw [Nat.succ_mul]
        omega
    refine ⟨early, by rw [hroom, ← hx], fun a ha => ?_⟩
    rw [hroom, ← hx, ← List.append_assoc, ← hmarks]
    exact hlast a ha

/-- The last torn item, if there is one. -/
theorem exists_last (ps : List (α × Bool)) : (∀ p ∈ ps, p.2 = false) ∨
    ∃ front c back, ps = front ++ (c, true) :: back ∧ ∀ p ∈ back, p.2 = false := by
  induction ps with
  | nil => exact Or.inl fun _ h => (List.not_mem_nil h).elim
  | cons p ps ih =>
    rcases ih with h | ⟨front, c, back, rfl, h⟩
    · obtain ⟨c, torn⟩ := p
      cases torn with
      | false => exact Or.inl (List.forall_mem_cons.mpr ⟨rfl, h⟩)
      | true => exact Or.inr ⟨[], c, ps, rfl, h⟩
    · exact Or.inr ⟨p :: front, c, back, rfl, h⟩

/-- Items that are not torn are shown as they are. -/
theorem cut_shows_whole (h : ∀ p ∈ ps, p.2 = false) :
    Cut (Shows r) ps shown ↔ shown = ps.map Prod.fst := by
  refine cut_singleton fun p hp piece => ?_
  rw [Shows, h p hp, if_neg Bool.false_ne_true]

/-- The window shows that items were torn unless each of them is unseen. -/
theorem window_shows_iff (hr : 0 < w r) (h : Cut (Shows r) ps shown) :
    window w limit (ps.map Prod.fst) = window w limit shown ↔
      ∀ front c back, ps = front ++ (c, true) :: back →
        Unseen w limit r (front.map Prod.fst ++ [c]) (back.map Prod.fst) := by
  rcases exists_last ps with hall | ⟨front, c, back, rfl, hback⟩
  · rw [(cut_shows_whole hall).mp h]
    refine iff_of_true rfl ?_
    rintro front c back rfl
    cases hall (c, true) (by simp)
  · have hsplit : front ++ (c, true) :: back = (front ++ [(c, true)]) ++ back := by simp
    rw [hsplit] at h
    obtain ⟨shown, rest, hshown, hrest, rfl⟩ := cut_append.mp h
    rw [(cut_shows_whole hback).mp hrest, hsplit, List.map_append, List.map_append]
    have hiff : window w limit ((front.map Prod.fst ++ [c]) ++ back.map Prod.fst) =
        window w limit (shown ++ back.map Prod.fst) ↔
          Unseen w limit r (front.map Prod.fst ++ [c]) (back.map Prod.fst) :=
      window_eq_iff hr fun _ _ => cut_shows_torn hshown
    rw [show [(c, true)].map Prod.fst = [c] from rfl, hiff]
    constructor
    · intro hunseen front' c' back' heq
      rcases lt_or_ge limit (size w (back'.map Prod.fst)) with hlt | hle
      · exact .of_lt hlt
      -- an earlier torn item stands before more of the text
      rw [← hsplit] at heq
      rcases List.append_eq_append_iff.mp heq with ⟨x, rfl, hx⟩ | ⟨x, rfl, hx⟩
      · cases x with
        | nil =>
          cases hx
          simpa using hunseen
        | cons p x =>
          obtain ⟨-, rfl⟩ := List.cons.inj hx
          cases hback (c', true) (by simp)
      · cases x with
        | nil =>
          cases hx
          simpa using hunseen
        | cons p x =>
          obtain ⟨rfl, rfl⟩ := List.cons.inj hx
          have hmid : (front' ++ (c', true) :: x).map Prod.fst ++ [c] =
              (front'.map Prod.fst ++ [c']) ++ (x.map Prod.fst ++ [c]) := by simp
          rw [hmid] at hunseen
          have hshort := hunseen.shorten (by simp [size] at hle; omega) hr
          simpa using hshort
    · exact fun hall => hall front c back hsplit.symm

end Torn

end MultiAi.Window
