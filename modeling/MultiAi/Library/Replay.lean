import Mathlib.Data.List.Induction
import Mathlib.Order.Lattice

/-! # Replays of a log

A log whose entries have increasing cursors is delivered with repetitions: a
delivery may start over at any earlier entry, but it skips none. A receiver that
only takes entries past the last one it took gets each entry once and in order.
-/

namespace MultiAi.Replay

variable {ε κ : Type*} [LinearOrder κ] (cursor : ε → κ)

/-- Take an entry if it is past the last one taken. -/
def take (taken : List ε) (e : ε) : List ε :=
  if taken.getLast?.any (cursor e ≤ cursor ·) then taken else taken ++ [e]

def accepted (delivered : List ε) : List ε := delivered.foldl (take cursor) []

/-- Whatever is delivered is in the log, and so was everything before it. -/
inductive Gapless (log : List ε) : List ε → Prop
  | nil : Gapless log []
  | concat {delivered : List ε} {e : ε} : Gapless log delivered → e ∈ log →
      (∀ e' ∈ log, cursor e' < cursor e → e' ∈ delivered) → Gapless log (delivered ++ [e])

variable {cursor} {log delivered : List ε}

theorem accepted_concat (e : ε) :
    accepted cursor (delivered ++ [e]) = take cursor (accepted cursor delivered) e :=
  List.foldl_append

theorem Gapless.subset (h : Gapless cursor log delivered) : delivered ⊆ log := by
  induction h with
  | nil => exact List.nil_subset _
  | concat _ he _ ih => exact List.append_subset.mpr ⟨ih, List.cons_subset.mpr ⟨he, List.nil_subset _⟩⟩

/-- A delivery has no gaps at any time before. -/
theorem Gapless.of_append {later : List ε} (h : Gapless cursor log (delivered ++ later)) :
    Gapless cursor log delivered := by
  induction later using List.reverseRecOn with
  | nil => rwa [List.append_nil] at h
  | append_singleton later e ih =>
    rw [← List.append_assoc] at h
    refine ih ?_
    generalize hg : delivered ++ later ++ [e] = d at h
    cases h with
    | nil => simp at hg
    | concat h' _ _ => exact (List.append_inj_left' hg rfl) ▸ h'

/-- Entries past those delivered may be added to the log. -/
theorem Gapless.extend (h : Gapless cursor log delivered) {e : ε}
    (he : ∀ e' ∈ log, cursor e' < cursor e) : Gapless cursor (log ++ [e]) delivered := by
  induction h with
  | nil => exact .nil
  | concat _ hmem hbefore ih =>
    refine .concat ih (List.mem_append_left _ hmem) fun e' he' hlt => ?_
    rcases List.mem_append.mp he' with he' | he'
    · exact hbefore e' he' hlt
    · rw [List.mem_singleton.mp he'] at hlt
      exact absurd hlt (he _ hmem).asymm

/-- A part of the log is delivered without gaps if the whole is. -/
theorem Gapless.filter (h : Gapless cursor log delivered) (p : ε → Bool) :
    Gapless cursor (log.filter p) (delivered.filter p) := by
  induction h with
  | nil => exact .nil
  | @concat delivered e _ hmem hbefore ih =>
    rw [List.filter_append]
    by_cases hp : p e
    · rw [List.filter_cons_of_pos hp, List.filter_nil]
      refine .concat ih (List.mem_filter.mpr ⟨hmem, hp⟩) fun e' he' hlt => ?_
      obtain ⟨he', hp'⟩ := List.mem_filter.mp he'
      exact List.mem_filter.mpr ⟨hbefore e' he' hlt, hp'⟩
    · rw [List.filter_cons_of_neg hp, List.filter_nil, List.append_nil]
      exact ih

/-- What is delivered comes with everything before it. -/
theorem Gapless.mem_of_lt (h : Gapless cursor log delivered) {e e' : ε} (he : e ∈ delivered)
    (he' : e' ∈ log) (hlt : cursor e' < cursor e) : e' ∈ delivered := by
  induction h with
  | nil => cases he
  | concat _ _ hbefore ih =>
    rcases List.mem_append.mp he with he | he
    · exact List.mem_append_left _ (ih he)
    · rw [List.mem_singleton.mp he] at hlt
      exact List.mem_append_left _ (hbefore e' he' hlt)

theorem filter_prefix {p : ε → Bool} (h : log.Pairwise fun e e' => p e' → p e) :
    log.filter p <+: log := by
  induction log with
  | nil => exact List.prefix_refl []
  | cons e log ih =>
    obtain ⟨he, hlog⟩ := List.pairwise_cons.mp h
    by_cases hp : p e
    · rw [List.filter_cons_of_pos hp]
      exact List.cons_prefix_cons.mpr ⟨rfl, ih hlog⟩
    · have hnone : log.filter p = [] :=
        List.filter_eq_nil_iff.mpr fun e' he' hp' => hp (he e' he' hp')
      rw [List.filter_cons_of_neg hp, hnone]
      exact List.nil_prefix

variable [DecidableEq ε]

/-- The receiver takes exactly the entries that were delivered, each once and in
the order of the log. -/
theorem accepted_eq (hlog : log.Pairwise (cursor · < cursor ·))
    (h : Gapless cursor log delivered) : accepted cursor delivered = log.filter (· ∈ delivered) := by
  induction h with
  | nil => simp [accepted]
  | @concat delivered e h hmem hbefore ih =>
    rw [accepted_concat, ih, take]
    obtain ⟨pre, post, rfl⟩ := List.append_of_mem hmem
    obtain ⟨-, hpost, hlt⟩ := List.pairwise_append.mp hlog
    have hpre : ∀ e' ∈ pre, cursor e' < cursor e := fun e' he' =>
      hlt e' he' e List.mem_cons_self
    have hafter := (List.pairwise_cons.mp hpost).1
    have hall : pre.filter (· ∈ delivered) = pre := List.filter_eq_self.mpr fun e' he' =>
      decide_eq_true (hbefore e' (List.mem_append_left _ he') (hpre e' he'))
    have hpre' : pre.filter (· ∈ delivered ++ [e]) = pre := List.filter_eq_self.mpr fun e' he' =>
      decide_eq_true (List.mem_append_left _ (hbefore e' (List.mem_append_left _ he') (hpre e' he')))
    rw [List.filter_append, hall, List.filter_append, hpre']
    by_cases he : e ∈ delivered
    · -- The last entry taken is `e` or a later one.
      have hsame : (e :: post).filter (· ∈ delivered ++ [e]) = (e :: post).filter (· ∈ delivered) := by
        refine List.filter_congr fun e' _ => decide_eq_decide.mpr ?_
        rw [List.mem_append, List.mem_singleton]
        exact or_iff_left_of_imp fun heq => heq ▸ he
      have hcons : (e :: post).filter (· ∈ delivered) = e :: post.filter (· ∈ delivered) :=
        List.filter_cons_of_pos (by simpa using he)
      rw [hsame, hcons, if_pos]
      cases hlast : post.filter (· ∈ delivered) using List.reverseRecOn with
      | nil => simp
      | append_singleton es x =>
        have hx : x ∈ post.filter (· ∈ delivered) := by simp [hlast]
        have hle := (hafter x (List.mem_filter.mp hx).1).le
        rw [← List.cons_append, ← List.append_assoc, List.getLast?_concat]
        exact decide_eq_true hle
    · -- Nothing from `e` on was delivered before.
      have hnone : post.filter (· ∈ delivered) = [] := by
        refine List.filter_eq_nil_iff.mpr fun e' he' hd => he ?_
        exact h.mem_of_lt (of_decide_eq_true hd) hmem (hafter e' he')
      have hnone' : post.filter (· ∈ delivered ++ [e]) = [] := by
        refine List.filter_eq_nil_iff.mpr fun e' he' hd => ?_
        rcases List.mem_append.mp (of_decide_eq_true hd) with hd | hd
        · exact List.filter_eq_nil_iff.mp hnone e' he' (decide_eq_true hd)
        · exact (hafter e' he').ne' (congrArg cursor (List.mem_singleton.mp hd))
      rw [List.filter_cons_of_neg (by simpa using he), hnone, List.append_nil,
        List.filter_cons_of_pos (by simp), hnone', if_neg]
      intro hany
      obtain ⟨x, hx, hle⟩ := (Option.any_eq_true _ _).mp hany
      exact absurd (of_decide_eq_true hle) (hpre x (List.mem_of_getLast? hx)).not_ge

theorem mem_accepted (hlog : log.Pairwise (cursor · < cursor ·))
    (h : Gapless cursor log delivered) {e : ε} : e ∈ accepted cursor delivered ↔ e ∈ delivered := by
  rw [accepted_eq hlog h, List.mem_filter, decide_eq_true_eq]
  exact ⟨And.right, fun he => ⟨h.subset he, he⟩⟩

theorem accepted_prefix (hlog : log.Pairwise (cursor · < cursor ·))
    (h : Gapless cursor log delivered) : accepted cursor delivered <+: log := by
  rw [accepted_eq hlog h]
  refine filter_prefix (hlog.imp_of_mem fun he _ hlt hd => decide_eq_true ?_)
  exact h.mem_of_lt (of_decide_eq_true hd) he hlt

end MultiAi.Replay
