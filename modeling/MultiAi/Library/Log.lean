import Mathlib.Data.List.DropRight
import Mathlib.Data.List.Induction

/-! # Reading a log

The latest value that the entries of a log give, and how it changes when entries
are appended.
-/

namespace MultiAi.Log

variable {ε α : Type*}

/-- The value of the last entry that gives one, or `a` if none does. -/
def latest (f : ε → Option α) (a : α) (log : List ε) : α :=
  log.foldl (fun a e => (f e).getD a) a

variable {f : ε → Option α} {a : α} {log log' : List ε}

@[simp] theorem latest_nil : latest f a [] = a := rfl

theorem latest_append : latest f a (log ++ log') = latest f (latest f a log) log' :=
  List.foldl_append

@[simp] theorem latest_concat (e : ε) :
    latest f a (log ++ [e]) = (f e).getD (latest f a log) := latest_append

theorem latest_of_silent (h : ∀ e ∈ log, f e = none) : latest f a log = a := by
  induction log generalizing a with
  | nil => rfl
  | cons e log ih =>
    rw [latest, List.foldl_cons, h e List.mem_cons_self]
    exact ih fun e' he => h e' (List.mem_cons_of_mem _ he)

/-- A value that is not the first one was given by some entry, and by none after it. -/
theorem exists_cut_of_latest {b : α} (h : latest f a log = b) (hb : b ≠ a) :
    ∃ pre e post, log = pre ++ e :: post ∧ f e = some b ∧ ∀ e' ∈ post, f e' = none := by
  induction log using List.reverseRecOn with
  | nil => exact absurd h.symm hb
  | append_singleton log e ih =>
    rw [latest_concat] at h
    cases he : f e with
    | none =>
      rw [he] at h
      obtain ⟨pre, e', post, rfl, hgiven, hpost⟩ := ih h
      refine ⟨pre, e', post ++ [e], by simp, hgiven, fun x hx => ?_⟩
      rcases List.mem_append.mp hx with hx | hx
      · exact hpost x hx
      · rwa [List.mem_singleton.mp hx]
    | some c =>
      rw [he] at h
      exact ⟨log, e, [], rfl, he.trans (congrArg some h), nofun⟩

theorem exists_of_latest {b : α} (h : latest f a log = b) (hb : b ≠ a) :
    ∃ e ∈ log, f e = some b := by
  obtain ⟨pre, e, post, rfl, he, -⟩ := exists_cut_of_latest h hb
  exact ⟨e, by simp, he⟩

/-- The entries that give a value all give one. -/
theorem latest_of_forall {b : α} (h : ∀ e ∈ log, ∀ c, f e = some c → c = b)
    (hex : ∃ e ∈ log, f e = some b) : latest f a log = b := by
  induction log using List.reverseRecOn with
  | nil =>
    obtain ⟨e, he, -⟩ := hex
    cases he
  | append_singleton log e ih =>
    rw [latest_concat]
    cases he : f e with
    | some c => exact h e List.mem_concat_self c he
    | none =>
      obtain ⟨e', hmem, he'⟩ := hex
      refine ih (fun e'' hm => h e'' (List.mem_append_left _ hm)) ⟨e', ?_, he'⟩
      rcases List.mem_append.mp hmem with hmem | hmem
      · exact hmem
      · obtain rfl := List.mem_singleton.mp hmem
        cases he.symm.trans he'

/-- An entry of a log that has grown is an old one or a new one. -/
theorem append_eq_cut {new pre post : List ε} {e : ε} :
    log ++ new = pre ++ e :: post ↔
      (∃ mid, log = pre ++ e :: mid ∧ post = mid ++ new) ∨
        ∃ mid, pre = log ++ mid ∧ new = mid ++ e :: post := by
  constructor
  · intro h
    rcases List.append_eq_append_iff.mp h with ⟨mid, hpre, hnew⟩ | ⟨mid, hlog, hmid⟩
    · exact Or.inr ⟨mid, hpre, hnew⟩
    · cases mid with
      | nil => exact Or.inr ⟨[], by simpa using hlog.symm, by simpa using hmid.symm⟩
      | cons x mid =>
        obtain ⟨rfl, rfl⟩ := List.cons.inj hmid
        exact Or.inl ⟨mid, hlog, rfl⟩
  · rintro (⟨mid, rfl, rfl⟩ | ⟨mid, rfl, rfl⟩) <;> simp

/-- As `append_eq_cut`, with the first new entry apart. -/
theorem append_cons_eq_cut {new pre post : List ε} {x e : ε} :
    log ++ x :: new = pre ++ e :: post ↔
      (∃ mid, log = pre ++ e :: mid ∧ post = mid ++ x :: new) ∨
        (pre = log ∧ x = e ∧ new = post) ∨ ∃ mid, pre = log ++ x :: mid ∧ new = mid ++ e :: post := by
  constructor
  · intro h
    rcases append_eq_cut.mp h with hold | ⟨mid, rfl, hnew⟩
    · exact Or.inl hold
    · cases mid with
      | nil =>
        obtain ⟨rfl, rfl⟩ := List.cons.inj hnew
        exact Or.inr (Or.inl ⟨List.append_nil _, rfl, rfl⟩)
      | cons y mid =>
        obtain ⟨rfl, hmid⟩ := List.cons.inj hnew
        exact Or.inr (Or.inr ⟨mid, rfl, hmid⟩)
  · rintro (⟨mid, rfl, rfl⟩ | ⟨rfl, rfl, rfl⟩ | ⟨mid, rfl, rfl⟩) <;> simp

/-- As `append_eq_cut`, for one new entry. -/
theorem concat_eq_cut {pre post : List ε} {x e : ε} :
    log ++ [x] = pre ++ e :: post ↔
      (∃ mid, log = pre ++ e :: mid ∧ post = mid ++ [x]) ∨ pre = log ∧ x = e ∧ post = [] := by
  rw [append_cons_eq_cut]
  constructor
  · rintro (hold | ⟨hpre, hx, hpost⟩ | ⟨mid, -, hnil⟩)
    · exact Or.inl hold
    · exact Or.inr ⟨hpre, hx, hpost.symm⟩
    · simp at hnil
  · rintro (hold | ⟨hpre, hx, hpost⟩)
    · exact Or.inl hold
    · exact Or.inr (Or.inl ⟨hpre, hx, hpost.symm⟩)

/-- An entry that is not new is an old one. -/
theorem cut_of_not_mem {new pre post : List ε} {e : ε} (h : log ++ new = pre ++ e :: post)
    (hnew : e ∉ new) : ∃ mid, log = pre ++ e :: mid ∧ post = mid ++ new := by
  rcases append_eq_cut.mp h with hold | ⟨mid, -, hmid⟩
  · exact hold
  · exact absurd (hmid ▸ List.mem_append_right _ List.mem_cons_self) hnew

section Each

/-- Each entry of a log is related to those before it. -/
def Each (R : List ε → ε → Prop) (log : List ε) : Prop :=
  ∀ before e after, log = before ++ e :: after → R before e

variable {R : List ε → ε → Prop}

theorem each_nil : Each R [] := by
  intro before e after h
  simp at h

theorem each_concat {e : ε} : Each R (log ++ [e]) ↔ Each R log ∧ R log e := by
  constructor
  · intro h
    refine ⟨fun before x after hx => h before x (after ++ [e]) ?_, h log e [] rfl⟩
    rw [hx, List.append_assoc, List.cons_append]
  · rintro ⟨hlog, he⟩ before x after h
    rcases concat_eq_cut.mp h with ⟨mid, hold, -⟩ | ⟨rfl, rfl, -⟩
    · exact hlog before x mid hold
    · exact he

end Each

section Since

variable {p q : ε → Bool}

/-- The entries after the last one that satisfies `p`. -/
def since (p : ε → Bool) (log : List ε) : List ε := log.rtakeWhile (!p ·)

@[simp] theorem since_nil : since p ([] : List ε) = [] := rfl

theorem since_concat (e : ε) :
    since p (log ++ [e]) = if p e then [] else since p log ++ [e] := by
  by_cases h : p e
  · simp [since, h]
  · simp [since, h]

theorem not_of_mem_since {e : ε} (h : e ∈ since p log) : ¬p e := by
  simpa using List.mem_rtakeWhile_imp h

theorem exists_append_since (p : ε → Bool) (log : List ε) : ∃ pre, log = pre ++ since p log :=
  let ⟨pre, h⟩ := List.rtakeWhile_suffix (!p ·) log
  ⟨pre, h.symm⟩

theorem since_append (h : ∀ e ∈ log', ¬p e) : since p (log ++ log') = since p log ++ log' := by
  induction log' using List.reverseRecOn with
  | nil => simp
  | append_singleton log' e ih =>
    have he : ¬p e := h e List.mem_concat_self
    rw [← List.append_assoc, since_concat, if_neg he,
      ih fun e' h' => h e' (List.mem_append_left _ h'), List.append_assoc]

/-- Where fewer entries count, what is left starts at the same place or before. -/
theorem since_cases (log : List ε) (h : ∀ e, q e → p e) : since q log = since p log ∨
    ∃ mid e, since q log = mid ++ e :: since p log ∧ p e := by
  induction log using List.reverseRecOn with
  | nil => exact Or.inl rfl
  | append_singleton log e ih =>
    rw [since_concat, since_concat]
    by_cases hq : q e
    · simp [hq, h e hq]
    · by_cases hp : p e
      · exact Or.inr ⟨since q log, e, by simp [hq, hp], hp⟩
      · rcases ih with heq | ⟨mid, e', hmid, he'⟩
        · exact Or.inl (by simp [hq, hp, heq])
        · exact Or.inr ⟨mid, e', by simp [hq, hp, hmid], he'⟩

end Since

end MultiAi.Log
