import MultiAi.Library.Machine
import Mathlib.Data.Set.Basic

/-! # Failures that are reported when they start

A journal notes the attempts at each key, with the fault of each and what was told of it,
and the keys that went away. A fault belongs to an episode that lasts until the key is
tried with success or goes away; an honest journal tells of an episode at its first fault.
-/

namespace MultiAi.Episodes

variable {κ μ : Type*}

inductive Note (κ μ : Type*) where
  | tried (key : κ) (fault : Option μ) (told : List μ)
  | left (keys : Set κ)

namespace Note

def tries (key : κ) : Note κ μ → Prop
  | tried k _ _ => k = key
  | left _ => False

def succeeds (key : κ) : Note κ μ → Prop
  | tried k fault _ => k = key ∧ fault = none
  | left _ => False

def reports (key : κ) : Note κ μ → Prop
  | tried k _ told => k = key ∧ told ≠ []
  | left _ => False

def lacks (key : κ) : Note κ μ → Prop
  | tried .. => False
  | left keys => key ∈ keys

def told : Note κ μ → List μ
  | tried _ _ told => told
  | left _ => []

theorem tries_tried (key : κ) (fault : Option μ) (told : List μ) :
    (tried key fault told).tries key := rfl

end Note

/-- The last attempt at the key failed, and the key did not go away since. -/
def Ongoing (log : List (Note κ μ)) (key : κ) : Prop :=
  ∃ early fault told since, log = early ++ .tried key (some fault) told :: since ∧
    ∀ note ∈ since, ¬ note.tries key ∧ ¬ note.lacks key

/-- A fault would be the first of its episode: the key was not tried, or the last attempt
did not fail, or the key went away since. -/
def Starts (log : List (Note κ μ)) (key : κ) : Prop :=
  (∀ note ∈ log, ¬ note.tries key) ∨
    ∃ early fault told since, log = early ++ .tried key fault told :: since ∧
      (∀ note ∈ since, ¬ note.tries key) ∧ (fault = none ∨ ∃ note ∈ since, note.lacks key)

open Classical in
/-- What is told of every attempt: its fault, if that starts an episode. -/
def Honest (log : List (Note κ μ)) : Prop :=
  ∀ pre key fault told post, log = pre ++ .tried key fault told :: post →
    told = if Ongoing pre key then [] else fault.toList

variable {log pre mid post early since : List (Note κ μ)} {key k : κ} {fault : Option μ}
  {told : List μ} {keys : Set κ} {x y note : Note κ μ}

theorem exists_last (log : List (Note κ μ)) (key : κ) : (∀ note ∈ log, ¬ note.tries key) ∨
    ∃ early fault told since, log = early ++ .tried key fault told :: since ∧
      ∀ note ∈ since, ¬ note.tries key := by
  induction log with
  | nil => exact Or.inl fun _ h => (List.not_mem_nil h).elim
  | cons x log ih =>
    rcases ih with h | ⟨early, fault, told, since, rfl, h⟩
    · by_cases hx : x.tries key
      · cases x with
        | tried k fault told =>
          obtain rfl : k = key := hx
          exact Or.inr ⟨[], fault, told, log, rfl, h⟩
        | left keys => exact hx.elim
      · exact Or.inl (List.forall_mem_cons.mpr ⟨hx, h⟩)
    · exact Or.inr ⟨x :: early, fault, told, since, rfl, h⟩

theorem last_unique {early' since' : List (Note κ μ)} (hx : x.tries key) (hy : y.tries key)
    (hs : ∀ note ∈ since, ¬ note.tries key) (hs' : ∀ note ∈ since', ¬ note.tries key)
    (h : early ++ x :: since = early' ++ y :: since') : x = y ∧ since = since' := by
  rcases List.append_eq_append_iff.mp h with ⟨c, -, hc⟩ | ⟨c, -, hc⟩
  all_goals
    cases c with
    | nil => simp_all
    | cons z c => simp_all

theorem ongoing_of_last (hs : ∀ note ∈ since, ¬ note.tries key) :
    Ongoing (early ++ .tried key fault told :: since) key ↔
      fault.isSome ∧ ∀ note ∈ since, ¬ note.lacks key := by
  constructor
  · rintro ⟨early', e, told', since', h, hs'⟩
    obtain ⟨hnote, rfl⟩ := last_unique (Note.tries_tried key _ _)
      (Note.tries_tried key _ _) hs (fun n hn => (hs' n hn).1) h
    cases hnote
    exact ⟨rfl, fun n hn => (hs' n hn).2⟩
  · rintro ⟨hf, hl⟩
    obtain ⟨e, rfl⟩ := Option.isSome_iff_exists.mp hf
    exact ⟨early, e, told, since, rfl, fun n hn => ⟨hs n hn, hl n hn⟩⟩

theorem not_ongoing (h : ∀ note ∈ log, ¬ note.tries key) : ¬ Ongoing log key := by
  rintro ⟨early, e, told, since, rfl, -⟩
  exact h (.tried key (some e) told) (by simp) rfl

theorem starts_iff : Starts log key ↔ ¬ Ongoing log key := by
  constructor
  · rintro (h | ⟨early, f, told, since, rfl, hs, hstart⟩)
    · exact not_ongoing h
    · rw [ongoing_of_last hs]
      rintro ⟨hf, hl⟩
      rcases hstart with rfl | ⟨note, hn, hlacks⟩
      · cases hf
      · exact hl note hn hlacks
  · intro h
    rcases exists_last log key with hnone | ⟨early, f, told, since, rfl, hs⟩
    · exact Or.inl hnone
    · rw [ongoing_of_last hs] at h
      refine Or.inr ⟨early, f, told, since, rfl, hs, ?_⟩
      cases f with
      | none => exact Or.inl rfl
      | some e => exact Or.inr (by simpa using h)

theorem ongoing_tried : Ongoing (log ++ [.tried key fault told]) key ↔ fault.isSome := by
  have h := @ongoing_of_last _ _ log [] key fault told fun _ h => (List.not_mem_nil h).elim
  rw [h]
  exact and_iff_left fun _ h => (List.not_mem_nil h).elim

/-- A note that is no attempt at the key ends its episode if the key went away. -/
theorem ongoing_concat (ht : ¬ note.tries key) :
    Ongoing (log ++ [note]) key ↔ Ongoing log key ∧ ¬ note.lacks key := by
  rcases exists_last log key with hnone | ⟨early, f, told, since, rfl, hs⟩
  · have hnone' : ∀ n ∈ log ++ [note], ¬ n.tries key := by
      simpa [or_imp, forall_and] using ⟨hnone, ht⟩
    exact iff_of_false (not_ongoing hnone') fun h => not_ongoing hnone h.1
  · have hs' : ∀ n ∈ since ++ [note], ¬ n.tries key := by
      simpa [or_imp, forall_and] using ⟨hs, ht⟩
    rw [List.append_assoc, List.cons_append, ongoing_of_last hs', ongoing_of_last hs]
    simp [or_imp, forall_and, and_assoc]

section Honest

theorem Honest.nil : Honest ([] : List (Note κ μ)) := by
  intro pre key fault told post h
  simp at h

open Classical in
theorem Honest.told_eq (h : Honest (pre ++ .tried key fault told :: post)) :
    told = if Starts pre key then fault.toList else [] := by
  have htold := h pre key fault told post rfl
  rw [htold]
  by_cases hon : Ongoing pre key
  · rw [if_pos hon, if_neg (fun h => starts_iff.mp h hon)]
  · rw [if_neg hon, if_pos (starts_iff.mpr hon)]

theorem Honest.of_append (h : Honest (log ++ post)) : Honest log := by
  intro pre key fault told post' hl
  exact h pre key fault told (post' ++ post) (by simp [hl])

theorem Honest.concat_left (h : Honest log) (keys : Set κ) : Honest (log ++ [.left keys]) := by
  intro pre key fault told post hl
  rcases List.eq_nil_or_concat post with rfl | ⟨post, last, rfl⟩
  · obtain ⟨-, hl⟩ := List.append_inj' hl rfl
    cases hl
  · rw [List.concat_eq_append, ← List.cons_append, ← List.append_assoc] at hl
    obtain ⟨hl, -⟩ := List.append_inj' hl rfl
    exact h pre key fault told post hl

open Classical in
theorem Honest.concat_tried (h : Honest log)
    (htold : told = if Ongoing log key then [] else fault.toList) :
    Honest (log ++ [.tried key fault told]) := by
  intro pre k f t post hl
  rcases List.eq_nil_or_concat post with rfl | ⟨post, last, rfl⟩
  · obtain ⟨hpre, hl⟩ := List.append_inj' hl rfl
    cases hl
    exact hpre ▸ htold
  · rw [List.concat_eq_append, ← List.cons_append, ← List.append_assoc] at hl
    obtain ⟨hl, -⟩ := List.append_inj' hl rfl
    exact h pre k f t post hl

/-- What is told of an attempt starts an episode. -/
theorem Honest.reports (h : Honest (pre ++ x :: post)) (hx : x.reports key) :
    ∃ fault told, x = .tried key (some fault) told ∧ Starts pre key := by
  cases x with
  | left keys => exact hx.elim
  | tried k fault told =>
    obtain ⟨rfl, htold⟩ := hx
    have heq := h.told_eq
    split_ifs at heq with hstart
    · cases fault with
      | none => exact absurd heq htold
      | some e => exact ⟨e, told, rfl, hstart⟩
    · exact absurd heq htold

/-- Between two reports the key is tried with success or goes away. -/
theorem Honest.between (h : Honest (pre ++ x :: (mid ++ y :: post))) (hx : x.reports key)
    (hy : y.reports key) : ∃ note ∈ mid, note.succeeds key ∨ note.lacks key := by
  by_contra hnone
  push Not at hnone
  obtain ⟨e, told, rfl, -⟩ := Honest.reports h hx
  have h' : Honest ((pre ++ .tried key (some e) told :: mid) ++ y :: post) := by simpa using h
  obtain ⟨-, -, -, hstart⟩ := h'.reports hy
  refine starts_iff.mp hstart ?_
  rcases exists_last mid key with hmid | ⟨early, f, told', since, rfl, hs⟩
  · exact ⟨pre, e, told, mid, rfl, fun n hn => ⟨hmid n hn, (hnone n hn).2⟩⟩
  · obtain ⟨e', rfl⟩ : ∃ e', f = some e' := by
      rw [← Option.ne_none_iff_exists']
      rintro rfl
      exact (hnone (.tried key none told') (by simp)).1 ⟨rfl, rfl⟩
    exact ⟨pre ++ .tried key (some e) told :: early, e', told', since, by simp,
      fun n hn => ⟨hs n hn, (hnone n (by simp [hn])).2⟩⟩

/-- Every fault is reported, or it was at the start of its episode. -/
theorem Honest.reported {e : μ} (h : Honest (pre ++ .tried key (some e) told :: post)) :
    told = [e] ∨ ∃ early x since, pre = early ++ x :: since ∧ x.reports key ∧
      ∀ note ∈ since, ¬ note.succeeds key ∧ ¬ note.lacks key := by
  induction hn : pre.length using Nat.strong_induction_on generalizing pre e told post with
  | _ n ih =>
    by_cases hstart : Starts pre key
    · have htold := h.told_eq
      rw [if_pos hstart] at htold
      exact Or.inl htold
    · right
      obtain ⟨early, e', told', since, rfl, hs⟩ := not_not.mp (mt starts_iff.mpr hstart)
      have hsince : ∀ note ∈ since, ¬ note.succeeds key ∧ ¬ note.lacks key := by
        rintro (⟨k, f, t⟩ | keys) hn
        · exact ⟨fun hok => (hs _ hn).1 hok.1, (hs _ hn).2⟩
        · exact ⟨id, (hs _ hn).2⟩
      rcases ih early.length (by simp at hn; omega) h.of_append rfl with
        rfl | ⟨early', x, since', rfl, hx, hs'⟩
      · exact ⟨early, .tried key (some e') [e'], since, rfl, ⟨rfl, List.cons_ne_nil _ _⟩, hsince⟩
      · refine ⟨early', x, since' ++ .tried key (some e') told' :: since, by simp, hx,
          fun n hn => ?_⟩
        rcases List.mem_append.mp hn with hn | hn
        · exact hs' n hn
        · rcases List.mem_cons.mp hn with rfl | hn
          · exact ⟨fun hok => Option.some_ne_none _ hok.2, id⟩
          · exact hsince n hn

end Honest

section Tracks

variable {σ ι : Type*} (fails : σ → κ → Prop)

/-- After an honest journal whose ongoing keys are those that fail, the notes of a step
are honest too and say which keys fail afterwards. -/
def Tracks (s : σ) (notes : List (Note κ μ)) (s' : σ) : Prop :=
  ∀ log, Honest log → (∀ key, fails s key ↔ Ongoing log key) →
    Honest (log ++ notes) ∧ ∀ key, fails s' key ↔ Ongoing (log ++ notes) key

variable {fails} {s s' s'' : σ} {notes notes' : List (Note κ μ)}

theorem Tracks.frame (h : ∀ key, fails s' key ↔ fails s key) :
    Tracks fails s ([] : List (Note κ μ)) s' := by
  intro log hlog hfails
  rw [List.append_nil]
  exact ⟨hlog, fun key => (h key).trans (hfails key)⟩

theorem Tracks.trans (h : Tracks fails s notes s') (h' : Tracks fails s' notes' s'') :
    Tracks fails s (notes ++ notes') s'' := by
  intro log hlog hfails
  obtain ⟨hlog', hfails'⟩ := h log hlog hfails
  rw [← List.append_assoc]
  exact h' _ hlog' hfails'

open Classical in
theorem Tracks.tried (hother : ∀ k, k ≠ key → (fails s' k ↔ fails s k))
    (hkey : fails s' key ↔ fault.isSome)
    (htold : told = if fails s key then [] else fault.toList) :
    Tracks fails s [.tried key fault told] s' := by
  intro log hlog hfails
  simp only [hfails] at htold
  refine ⟨hlog.concat_tried htold, fun k => ?_⟩
  by_cases hk : k = key
  · rw [hk, hkey, ongoing_tried]
  · have hnot : ¬ (Note.tried key fault told).tries k := Ne.symm hk
    rw [hother k hk, hfails, ongoing_concat hnot]
    exact (and_iff_left id).symm

theorem Tracks.left (h : ∀ key, fails s' key ↔ fails s key ∧ key ∉ keys) :
    Tracks fails s ([.left keys] : List (Note κ μ)) s' := by
  intro log hlog hfails
  refine ⟨hlog.concat_left keys, fun key => ?_⟩
  have hnot : ¬ (Note.left keys : Note κ μ).tries key := id
  rw [h, hfails, ongoing_concat hnot]
  exact Iff.rfl

/-- The states may be seen through a view. -/
theorem Tracks.view {σ' : Type*} (f : σ' → σ) {x x' : σ'}
    (h : Tracks (fun x => fails (f x)) x notes x') : Tracks fails (f x) notes (f x') := h

open Machine in
/-- A machine whose steps note what they do, as long as an invariant holds. -/
theorem Tracks.run {step : σ → ι → σ × List (Note κ μ)} {P : σ → Prop} {Q : ι → Prop}
    (hstep : ∀ s i, P s → Q i → P (step s i).1 ∧ Tracks fails s (step s i).2 (step s i).1)
    (is : List ι) (hs : P s) (hQ : ∀ i ∈ is, Q i) :
    P (run step s is) ∧ Tracks fails s (outputs step s is) (run step s is) := by
  induction is generalizing s with
  | nil => exact ⟨hs, .frame fun _ => Iff.rfl⟩
  | cons i is ih =>
    obtain ⟨hs', ht⟩ := hstep s i hs (hQ i List.mem_cons_self)
    obtain ⟨hP, ht'⟩ := ih hs' fun j hj => hQ j (List.mem_cons_of_mem _ hj)
    exact ⟨hP, ht.trans ht'⟩

end Tracks

end MultiAi.Episodes
