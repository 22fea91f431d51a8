import Mathlib.Order.Nat
import MultiAi.Library.Machine

/-! # Sections

Some elements of a list are heads: each opens a section, which an element belongs to if no other
head stands between. Sections of one kind are cut out, heads included; what stays keeps its head.
-/

namespace MultiAi.Sections

open Machine

variable {α : Type*} (opens : α → Option Bool)

/-- The position of the nearest head before a position. -/
def governing (as : List α) : ℕ → Option ℕ
  | 0 => none
  | i + 1 => if (as[i]?.bind opens).isSome then some i else governing as i

/-- The kind of the section before a position, if a head stands before it. -/
def sort (as : List α) (i : ℕ) : Option Bool := (governing opens as i).bind (as[·]?.bind opens)

/-- An element is dropped if it opens a section that is cut, or opens none and belongs to one. -/
def dropped (as : List α) (i : ℕ) : Bool :=
  ((as[i]?.bind opens).or (sort opens as i)).getD false

/-- The positions of what stays. -/
def keptAt (as : List α) : List ℕ := (List.range as.length).filter (! dropped opens as ·)

/-- One element passes or does not, with whether it stands inside a section that is cut. -/
def cut (inside : Bool) (a : α) : Bool × List α :=
  ((opens a).getD inside, if (opens a).getD inside then [] else [a])

variable {opens} {as bs : List α} {i j k : ℕ}

theorem governing_lt (h : governing opens as i = some j) : j < i := by
  induction i with
  | zero => cases h
  | succ i ih =>
    rw [governing] at h
    split_ifs at h
    · cases h
      exact Nat.lt_succ_self j
    · exact (ih h).trans (Nat.lt_succ_self i)

theorem isSome_of_governing (h : governing opens as i = some j) : (as[j]?.bind opens).isSome := by
  induction i with
  | zero => cases h
  | succ i ih =>
    rw [governing] at h
    split_ifs at h with hi
    · cases h
      exact hi
    · exact ih h

theorem governing_append (h : i ≤ as.length) :
    governing opens (as ++ bs) i = governing opens as i := by
  induction i with
  | zero => rfl
  | succ i ih => rw [governing, governing, ih (by omega), List.getElem?_append_left (by omega)]

theorem governing_concat (a : α) :
    governing opens (as ++ [a]) (as.length + 1) =
      if (opens a).isSome then some as.length else governing opens as as.length := by
  rw [governing, List.getElem?_concat_length, governing_append le_rfl, Option.bind_some]

/-- What elements open says which ones are heads. -/
theorem governing_map {f : α → α} (hf : ∀ a, opens (f a) = opens a) :
    governing opens (as.map f) i = governing opens as i := by
  induction i with
  | zero => rfl
  | succ i ih =>
    have hbind : ((as.map f)[i]?.bind opens) = as[i]?.bind opens := by
      cases h : as[i]? <;> simp [h, hf]
    rw [governing, governing, ih, hbind]

theorem sort_append (h : i ≤ as.length) : sort opens (as ++ bs) i = sort opens as i := by
  rw [sort, sort, governing_append h]
  cases hg : governing opens as i with
  | none => rfl
  | some j =>
    have hlt := governing_lt hg
    rw [Option.bind_some, Option.bind_some, List.getElem?_append_left (by omega)]

theorem dropped_append (h : i < as.length) :
    dropped opens (as ++ bs) i = dropped opens as i := by
  rw [dropped, dropped, sort_append h.le, List.getElem?_append_left h]

theorem lt_of_mem_keptAt (h : i ∈ keptAt opens as) : i < as.length :=
  List.mem_range.mp (List.mem_filter.mp h).1

theorem mem_keptAt : i ∈ keptAt opens as ↔ i < as.length ∧ dropped opens as i = false := by
  simp [keptAt]

theorem keptAt_concat (a : α) :
    keptAt opens (as ++ [a]) =
      keptAt opens as ++ if dropped opens (as ++ [a]) as.length then [] else [as.length] := by
  have hprefix : (List.range as.length).filter (! dropped opens (as ++ [a]) ·) = keptAt opens as :=
    List.filter_congr fun i hi => by rw [dropped_append (List.mem_range.mp hi)]
  rw [keptAt, List.length_append, List.length_singleton, List.range_succ, List.filter_append,
    hprefix]
  cases hd : dropped opens (as ++ [a]) as.length <;> simp [hd]

/-- The machine stands inside what the last head says. -/
theorem run_cut : run (cut opens) false as = (sort opens as as.length).getD false := by
  induction as using List.reverseRecOn with
  | nil => rfl
  | append_singleton as a ih =>
    rw [run_concat, List.length_append, List.length_singleton, sort, governing_concat, cut, ih]
    cases ha : opens a with
    | none =>
      rw [Option.isSome_none, if_neg Bool.false_ne_true, ← @sort_append _ opens as [a] _ le_rfl, sort,
        governing_append le_rfl, Option.getD_none]
    | some b => simp [ha]

theorem dropped_concat (a : α) :
    dropped opens (as ++ [a]) as.length = (opens a).getD (run (cut opens) false as) := by
  rw [dropped, List.getElem?_concat_length, Option.bind_some, sort_append le_rfl, run_cut]
  cases opens a <;> simp

theorem outputs_concat_cut (a : α) :
    outputs (cut opens) false (as ++ [a]) = outputs (cut opens) false as ++
      if dropped opens (as ++ [a]) as.length then [] else [a] := by
  rw [outputs_concat, dropped_concat, cut]

/-- Exactly what is not dropped stays, as it is and in its order. -/
theorem outputs_cut :
    (outputs (cut opens) false as).map some = (keptAt opens as).map (as[·]?) := by
  induction as using List.reverseRecOn with
  | nil => rfl
  | append_singleton as a ih =>
    have hlook : (keptAt opens as).map ((as ++ [a])[·]?) = (keptAt opens as).map (as[·]?) :=
      List.map_congr_left fun i hi => List.getElem?_append_left (lt_of_mem_keptAt hi)
    rw [outputs_concat_cut, keptAt_concat, List.map_append, List.map_append, ih, hlook]
    cases dropped opens (as ++ [a]) as.length <;> simp

theorem length_outputs_cut : (outputs (cut opens) false as).length = (keptAt opens as).length := by
  have h := congrArg List.length (@outputs_cut _ opens as)
  rwa [List.length_map, List.length_map] at h

/-- Positions before the end are looked up in what was kept so far. -/
theorem bind_keptAt_append {ks : List ℕ} (h : k ≤ (outputs (cut opens) false as).length) :
    (governing opens (outputs (cut opens) false as ++ bs) k).bind ((keptAt opens as ++ ks)[·]?) =
      (governing opens (outputs (cut opens) false as) k).bind ((keptAt opens as)[·]?) := by
  rw [governing_append h]
  cases hg : governing opens (outputs (cut opens) false as) k with
  | none => rfl
  | some j =>
    have hlt := governing_lt hg
    rw [length_outputs_cut] at h
    exact List.getElem?_append_left (by omega)

/-- Outside of the sections that are cut, the last head is among what stays. -/
theorem governing_length (h : run (cut opens) false as = false) :
    (governing opens (outputs (cut opens) false as)
      (outputs (cut opens) false as).length).bind ((keptAt opens as)[·]?) =
        governing opens as as.length := by
  induction as using List.reverseRecOn with
  | nil => rfl
  | append_singleton as a ih =>
    rw [run_concat, cut] at h
    have hd : dropped opens (as ++ [a]) as.length = false := (dropped_concat a).trans h
    rw [outputs_concat_cut, keptAt_concat, hd, if_neg Bool.false_ne_true,
      if_neg Bool.false_ne_true, List.length_append, List.length_append, List.length_singleton,
      governing_concat, governing_concat]
    cases ha : opens a with
    | none =>
      rw [ha, Option.getD_none] at h
      have hbind := @bind_keptAt_append _ opens as [] _ [as.length] le_rfl
      rw [List.append_nil] at hbind
      rw [Option.isSome_none, if_neg Bool.false_ne_true, if_neg Bool.false_ne_true, hbind, ih h]
    | some b => simp [length_outputs_cut]

/-- What stays keeps its head, unless that is cut. -/
theorem governing_outputs_of_stays (hk : (keptAt opens as)[k]? = some i)
    (hi : sort opens as i ≠ some true) :
    (governing opens (outputs (cut opens) false as) k).bind ((keptAt opens as)[·]?) =
      governing opens as i := by
  induction as using List.reverseRecOn with
  | nil => cases hk
  | append_singleton as a ih =>
    rw [keptAt_concat] at hk
    rw [outputs_concat_cut, keptAt_concat]
    rcases lt_or_ge k (keptAt opens as).length with hlt | hge
    · rw [List.getElem?_append_left hlt] at hk
      have hlen := lt_of_mem_keptAt (List.mem_of_getElem? hk)
      rw [bind_keptAt_append (length_outputs_cut.ge.trans' hlt.le), governing_append hlen.le]
      exact ih hk (sort_append hlen.le ▸ hi)
    · rw [List.getElem?_append_right hge] at hk
      cases hd : dropped opens (as ++ [a]) as.length with
      | true => simp [hd] at hk
      | false =>
        rw [hd, if_neg Bool.false_ne_true, List.getElem?_singleton] at hk
        split_ifs at hk with hzero
        cases hk
        -- the new element stands at the end of both
        have hk : k = (outputs (cut opens) false as).length := by
          rw [length_outputs_cut]
          omega
        rw [sort_append le_rfl] at hi
        have hrun : run (cut opens) false as = false := by
          rw [run_cut]
          cases hs : sort opens as as.length with
          | none => rfl
          | some b =>
            cases b with
            | false => rfl
            | true => exact absurd hs hi
        rw [if_neg Bool.false_ne_true, bind_keptAt_append hk.le, hk, governing_length hrun,
          governing_append le_rfl]

theorem dropped_of_opens (h : as[i]?.bind opens = some true) : dropped opens as i = true := by
  rw [dropped, h]
  rfl

/-- What stays keeps its head exactly if that is not cut. -/
theorem governing_outputs (hk : (keptAt opens as)[k]? = some i) :
    (governing opens (outputs (cut opens) false as) k).bind ((keptAt opens as)[·]?) =
      governing opens as i ↔ sort opens as i ≠ some true := by
  refine ⟨?_, governing_outputs_of_stays hk⟩
  intro h hi
  obtain ⟨j, hj, hopens⟩ := Option.bind_eq_some_iff.mp hi
  rw [hj] at h
  obtain ⟨m, -, hm⟩ := Option.bind_eq_some_iff.mp h
  have hkept := (mem_keptAt.mp (List.mem_of_getElem? hm)).2
  rw [dropped_of_opens hopens] at hkept
  cases hkept

theorem stays_of_mem_outputs {a : α} (h : a ∈ outputs (cut opens) false as) :
    opens a ≠ some true := by
  refine outputs_forall (P := (opens · ≠ some true)) ?_ false as a h
  intro inside b c hc hopens
  rw [cut] at hc
  split_ifs at hc with hb
  · cases hc
  · cases List.mem_singleton.mp hc
    simp [hopens] at hb

/-- Where nothing opens a section that is cut, everything stays. -/
theorem outputs_of_stays (h : ∀ a ∈ as, opens a ≠ some true) :
    outputs (cut opens) false as = as := by
  induction as with
  | nil => rfl
  | cons a as ih =>
    have ha : (opens a).getD false = false := by
      have hne := h a List.mem_cons_self
      cases hopens : opens a with
      | none => rfl
      | some b =>
        cases b with
        | false => rfl
        | true => exact absurd hopens hne
    rw [outputs_cons, cut, ha, if_neg Bool.false_ne_true,
      ih fun b hb => h b (List.mem_cons_of_mem _ hb), List.singleton_append]

end MultiAi.Sections
