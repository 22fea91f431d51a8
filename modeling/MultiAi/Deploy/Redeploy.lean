import MultiAi.Deploy.Swap
import MultiAi.Library.Machine

/-! # Deploying again and again

A later call starts by removing the leftovers of the earlier ones. Where the binary is
missing, because an earlier call was cut or could not put it back, this removes the only
copy; it is lost unless the call gets its own upload in place.
-/

namespace MultiAi

open Asking

/-- The files of a host and the contents that calls have put at the binary's path. -/
structure Site (α : Type) where
  files : Files α
  installed : List α

/-- What happens to the files of a host: an upload is written or thrown away, or a call
swaps it in. -/
inductive Deployment (α κ : Type) where
  | upload (content : α)
  | discard
  | swap (stamp : ℕ) (services : List (Service κ))

section Conditions

variable {α κ : Type} (dir exe : String)

/-- The paths of a list whose removals, in order, are let through. -/
def removed : List String → List (Service κ) → List String
  | path :: paths, v :: vs => if v.fails then removed paths vs else path :: removed paths vs
  | _, _ => []

/-- The leftovers that the host lets a call remove. -/
def swept : List (Service κ) → List String
  | [] => []
  | v :: vs => if v.fails then [] else removed (leftovers dir exe v.names) vs

/-- How the host serves what follows the clean-up. -/
def afterCleanUp : List (Service κ) → List (Service κ)
  | [] => []
  | v :: vs => if v.fails then vs else vs.drop (leftovers dir exe v.names).length

/-- Where no binary has to be moved aside, the host lets the upload in. -/
def letsIn : List (Service κ) → Bool
  | look :: put :: _ => !look.fails && !put.fails
  | _ => false

/-- One step, with the result that a call returns. -/
def Site.step (site : Site α) : Deployment α κ → Site α × List (Except (IoError κ) Unit)
  | .upload content =>
    ({ site with files := site.files.insert (dir ++ "/" ++ exe ++ ".upload") content }, [])
  | .discard => ({ site with files := site.files.erase (dir ++ "/" ++ exe ++ ".upload") }, [])
  | .swap stamp vs =>
    let r := (swapIn dir exe stamp).run serve site.files vs
    let put := site.files[dir ++ "/" ++ exe ++ ".upload"]?.toList
    (⟨r.state, site.installed ++ if placed (dir ++ "/" ++ exe) r.events then put else []⟩,
      r.result.toList)

/-- Some installed binary is in place or under the name of a leftover. -/
def Site.Keeps (site : Site α) : Prop :=
  site.installed = [] ∨ ∃ content ∈ site.installed,
    site.files[dir ++ "/" ++ exe]? = some content ∨
      ∃ path, IsOld (dir ++ "/" ++ exe) path ∧ site.files[path]? = some content

/-- A call that starts without the binary in place leaves a leftover of it or gets its own
upload in. -/
def Site.Careful (site : Site α) : Deployment α κ → Prop
  | .swap _ vs => site.installed = [] ∨ dir ++ "/" ++ exe ∈ site.files ∨
      (∃ content ∈ site.installed, ∃ path, IsOld (dir ++ "/" ++ exe) path ∧
        site.files[path]? = some content ∧ path ∉ swept dir exe vs) ∨
      letsIn (afterCleanUp dir exe vs) ∧ dir ++ "/" ++ exe ++ ".upload" ∈ site.files
  | .upload _ | .discard => True

end Conditions

section CleanUp

variable {α κ : Type} {dir exe target : String} {files : Files α}

theorem removeAll_run (target : String) (paths : List String) (files : Files α) (vs : List (Service κ)) :
    let r := (removeAll paths).run serve files vs
    (∀ path, r.state[path]? = if path ∈ removed paths vs then none else files[path]?) ∧
      placed target r.events = false ∧
      (r.result = some () ∧ r.events.length = paths.length ∨
        r.result = none ∧ vs.drop paths.length = []) := by
  induction paths generalizing files vs with
  | nil => cases vs <;> simp [removeAll, removed, placed]
  | cons path paths ih =>
    cases vs with
    | nil => simp [removeAll, removed, placed]
    | cons v vs =>
      obtain ⟨hstate, hplaced, hend⟩ := ih (serve (.remove path) files v).2 vs
      simp only [removeAll, run_ask_cons]
      refine ⟨fun other => ?_, hplaced, ?_⟩
      · rw [hstate, removed]
        cases hv : v.fails with
        | true => rw [serve_fails _ hv, if_pos rfl]
        | false =>
          rw [serve_remove_state hv, if_neg Bool.false_ne_true]
          rcases eq_or_ne path other with rfl | ho
          · simp
          · simp [ho, ho.symm]
      · rcases hend with ⟨hr, hl⟩ | ⟨hr, hd⟩
        · exact .inl ⟨hr, by rw [List.length_cons, List.length_cons, hl]⟩
        · exact .inr ⟨hr, by rw [List.length_cons, List.drop_succ_cons, hd]⟩

theorem cleanUp_run (dir exe target : String) (files : Files α) (vs : List (Service κ)) :
    let r := (cleanUp dir exe).run serve files vs
    (∀ path, r.state[path]? = if path ∈ swept dir exe vs then none else files[path]?) ∧
      placed target r.events = false ∧
      (r.result = some () ∧ vs.drop r.events.length = afterCleanUp dir exe vs ∨
        r.result = none ∧ afterCleanUp dir exe vs = []) := by
  cases vs with
  | nil => simp [cleanUp, swept, afterCleanUp, placed]
  | cons v vs =>
    cases hv : v.fails with
    | true =>
      simp [cleanUp, swept, afterCleanUp, serve_fails _ hv, hv, placed, putsIn]
    | false =>
      have hs : serve (.list dir) files v = (.ok v.names, files) := by simp [serve, hv]
      obtain ⟨hstate, hplaced, hend⟩ :=
        removeAll_run target (leftovers dir exe v.names) files vs
      simp only [cleanUp, run_ask_cons, hs, swept, afterCleanUp, hv]
      refine ⟨hstate, hplaced, ?_⟩
      rcases hend with ⟨hr, hl⟩ | ⟨hr, hd⟩
      · exact .inl ⟨hr, by rw [List.length_cons, List.drop_succ_cons, hl]; rfl⟩
      · exact .inr ⟨hr, hd⟩

theorem mem_removed {path : String} {paths : List String} {vs : List (Service κ)}
    (h : path ∈ removed paths vs) : path ∈ paths := by
  induction paths generalizing vs with
  | nil => cases vs <;> cases h
  | cons other paths ih =>
    cases vs with
    | nil => cases h
    | cons v vs =>
      rw [removed] at h
      cases hv : v.fails with
      | true =>
        rw [hv, if_pos rfl] at h
        exact List.mem_cons_of_mem _ (ih h)
      | false =>
        rw [hv, if_neg Bool.false_ne_true] at h
        rcases List.mem_cons.mp h with rfl | h
        · exact List.mem_cons_self
        · exact List.mem_cons_of_mem _ (ih h)

theorem isOld_of_mem_swept {path : String} {vs : List (Service κ)}
    (h : path ∈ swept dir exe vs) : IsOld (dir ++ "/" ++ exe) path := by
  cases vs with
  | nil => cases h
  | cons v vs =>
    rw [swept] at h
    split at h
    · cases h
    · exact isOld_of_mem_leftovers (mem_removed h)

/-- Without a binary to move aside, only the rename of the upload can change files. -/
theorem install_run (hm : target ∉ files) (stamp : ℕ) (vs : List (Service κ)) :
    let r := (install target stamp).run serve files vs
    if letsIn vs = true ∧ target ++ ".upload" ∈ files then placed target r.events = true
    else placed target r.events = false ∧ r.state = files := by
  rcases vs with _ | ⟨look, vs⟩
  · simp [install, moveAside, letsIn, placed]
  cases hl : look.fails with
  | true =>
    simp only [install, moveAside, bind_ask, run_ask_cons, serve_fails _ hl, bind_done, run_done]
    rcases vs with _ | ⟨put, vs⟩ <;> simp [letsIn, placed, putsIn, hl]
  | false =>
    have hs : serve (.exists target) files look = (.ok false, files) := by
      simp [serve, hl, hm]
    rcases vs with _ | ⟨put, vs⟩
    · simp [install, moveAside, putInPlace, hs, letsIn, placed, putsIn]
    simp only [install, moveAside, putInPlace, bind_ask, run_ask_cons, hs, bind_done]
    cases hp : put.fails with
    | true => simp [serve_fails _ hp, letsIn, hp, placed, putsIn]
    | false =>
      by_cases hn : target ++ ".upload" ∈ files
      · simp [serve, hp, hl, hn, hm, letsIn, placed, putsIn]
      · simp [serve, hp, hn, placed, putsIn]

theorem swapIn_run_absent (hb : dir ++ "/" ++ exe ∉ files) (stamp : ℕ)
    (vs : List (Service κ)) :
    let r := (swapIn dir exe stamp).run serve files vs
    if letsIn (afterCleanUp dir exe vs) = true ∧ dir ++ "/" ++ exe ++ ".upload" ∈ files then
      placed (dir ++ "/" ++ exe) r.events = true
    else placed (dir ++ "/" ++ exe) r.events = false ∧
      ∀ path, r.state[path]? = if path ∈ swept dir exe vs then none else files[path]? := by
  obtain ⟨hstate, hplaced, hend⟩ := cleanUp_run dir exe (dir ++ "/" ++ exe) files vs
  rcases hend with ⟨hr, hd⟩ | ⟨hr, hd⟩
  · have hsame : ∀ path, ¬ IsOld (dir ++ "/" ++ exe) path →
        ((cleanUp dir exe).run serve files vs).state[path]? = files[path]? := fun path hp => by
      rw [hstate, if_neg fun h => hp (isOld_of_mem_swept h)]
    have hb' : dir ++ "/" ++ exe ∉ ((cleanUp dir exe).run serve files vs).state := by
      rw [← Std.ExtTreeMap.isSome_getElem?_iff_mem, hsame _ fun h => h.ne_target rfl,
        Std.ExtTreeMap.isSome_getElem?_iff_mem]
      exact hb
    have hu : dir ++ "/" ++ exe ++ ".upload" ∈ ((cleanUp dir exe).run serve files vs).state ↔
        dir ++ "/" ++ exe ++ ".upload" ∈ files := by
      rw [← Std.ExtTreeMap.isSome_getElem?_iff_mem, hsame _ fun h => h.ne_upload rfl,
        Std.ExtTreeMap.isSome_getElem?_iff_mem]
    have hinstall := install_run hb' stamp (afterCleanUp dir exe vs)
    simp only [hu] at hinstall
    simp only [swapIn, run_bind_some serve hr, hd, placed_append, hplaced, Bool.false_or]
    split
    · rw [if_pos ‹_›] at hinstall
      exact hinstall
    · rw [if_neg ‹_›] at hinstall
      exact ⟨hinstall.1, fun path => by rw [hinstall.2, hstate]⟩
  · simp only [swapIn, run_bind_none serve hr, hd, letsIn, Bool.false_eq_true, false_and, if_false]
    exact ⟨hplaced, hstate⟩

end CleanUp

namespace Site

variable {α κ : Type} {dir exe : String} {site : Site α}

/-- Once a call put a binary in place, no other content is ever there. -/
def Sound (dir exe : String) (site : Site α) : Prop :=
  ∀ content, site.files[dir ++ "/" ++ exe]? = some content →
    site.installed = [] ∨ content ∈ site.installed

/-- A call seen by its stage: nothing was installed, or the upload. -/
theorem step_swap (dir exe : String) (site : Site α) (stamp : ℕ) (vs : List (Service κ)) :
    let now := (site.step dir exe (.swap stamp vs)).1
    (now.installed = site.installed ∧
      (now.files[dir ++ "/" ++ exe]? = site.files[dir ++ "/" ++ exe]? ∨
        now.files[dir ++ "/" ++ exe]? = none ∧ ∃ name content, IsOld (dir ++ "/" ++ exe) name ∧
          site.files[dir ++ "/" ++ exe]? = some content ∧ now.files[name]? = some content)) ∨
      ∃ content, now.installed = site.installed ++ [content] ∧
        now.files[dir ++ "/" ++ exe]? = some content := by
  cases (swapIn_stage dir exe stamp site.files vs).1 with
  | kept h => exact .inl ⟨by simp [step, h.placed], .inl h.binary⟩
  | @moved name h =>
    obtain ⟨content, hb, hn⟩ := h.old
    exact .inl ⟨by simp [step, h.placed], .inr ⟨h.binary, name, content, h.aside.isOld, hb, hn⟩⟩
  | placed h =>
    obtain ⟨content, hu, hb⟩ := h.binary
    exact .inr ⟨content, by simp [step, h.placed, hu], hb⟩

theorem Sound.step (h : site.Sound dir exe) (i : Deployment α κ) :
    (site.step dir exe i).1.Sound dir exe := by
  intro content hc
  cases i with
  | upload new =>
    rw [Site.step, Std.ExtTreeMap.getElem?_insert, if_neg (by simp)] at hc
    exact h content hc
  | discard =>
    rw [Site.step, Files.erase_ne upload_ne_target] at hc
    exact h content hc
  | swap stamp vs =>
    rcases step_swap dir exe site stamp vs with
      ⟨hi, hb | ⟨hb, -⟩⟩ | ⟨new, hi, hb⟩
    · rw [hi]
      exact h content (hb ▸ hc)
    · rw [hb] at hc
      cases hc
    · rw [hb] at hc
      rw [hi, ← Option.some.inj hc]
      exact .inr (List.mem_append_right _ List.mem_cons_self)

/-- Uploads touch neither the binary nor its leftovers. -/
theorem Keeps.of_same {now : Site α} (h : site.Keeps dir exe)
    (hi : now.installed = site.installed)
    (hf : ∀ path, path ≠ dir ++ "/" ++ exe ++ ".upload" → now.files[path]? = site.files[path]?) :
    now.Keeps dir exe := by
  rcases h with h | ⟨content, hc, hb | ⟨path, hp, hb⟩⟩
  · exact .inl (hi.trans h)
  · exact .inr ⟨content, hi ▸ hc, .inl ((hf _ upload_ne_target.symm).trans hb)⟩
  · exact .inr ⟨content, hi ▸ hc, .inr ⟨path, hp, (hf _ hp.ne_upload).trans hb⟩⟩

/-- A call that finds the binary in place, or had none to lose. -/
theorem keeps_swap (h : site.Sound dir exe)
    (hb : site.installed = [] ∨ dir ++ "/" ++ exe ∈ site.files) (stamp : ℕ)
    (vs : List (Service κ)) : (site.step dir exe (.swap stamp vs)).1.Keeps dir exe := by
  rcases step_swap dir exe site stamp vs with
    ⟨hi, hfiles⟩ | ⟨content, hi, hc⟩
  · rcases hb with hb | hb
    · exact .inl (hi.trans hb)
    · obtain ⟨old, ho⟩ := Option.isSome_iff_exists.mp
        (Std.ExtTreeMap.isSome_getElem?_iff_mem.mpr hb)
      rcases h old ho with hnone | hmem
      · exact .inl (hi.trans hnone)
      · refine .inr ⟨old, hi ▸ hmem, ?_⟩
        rcases hfiles with hsame | ⟨-, name, content, hname, hc, hn⟩
        · exact .inl (hsame.trans ho)
        · rw [ho, Option.some.injEq] at hc
          subst hc
          exact .inr ⟨name, hname, hn⟩
  · exact .inr ⟨content, hi ▸ List.mem_append_right _ List.mem_cons_self, .inl hc⟩

/-- A call that finds no binary in place keeps a leftover that it does not sweep, or gets
its upload in. -/
theorem keeps_swap_absent (hs : site.installed ≠ []) (hb : dir ++ "/" ++ exe ∉ site.files)
    (stamp : ℕ) (vs : List (Service κ)) :
    (site.step dir exe (.swap stamp vs)).1.Keeps dir exe ↔
      (∃ content ∈ site.installed, ∃ path, IsOld (dir ++ "/" ++ exe) path ∧
        site.files[path]? = some content ∧ path ∉ swept dir exe vs) ∨
      letsIn (afterCleanUp dir exe vs) ∧ dir ++ "/" ++ exe ++ ".upload" ∈ site.files := by
  have hrun := swapIn_run_absent hb stamp vs
  by_cases hl : letsIn (afterCleanUp dir exe vs) ∧ dir ++ "/" ++ exe ++ ".upload" ∈ site.files
  · refine iff_of_true ?_ (.inr hl)
    rw [if_pos hl] at hrun
    cases (swapIn_stage dir exe stamp site.files vs).1 with
    | kept h => exact absurd (h.placed.symm.trans hrun) Bool.false_ne_true
    | moved h => exact absurd (h.placed.symm.trans hrun) Bool.false_ne_true
    | placed h =>
      obtain ⟨content, hu, hc⟩ := h.binary
      exact .inr ⟨content, by simp [step, hrun, hu], .inl hc⟩
  · rw [if_neg hl] at hrun
    obtain ⟨hp, hstate⟩ := hrun
    have hi : (site.step dir exe (.swap stamp vs)).1.installed = site.installed := by
      simp [step, hp]
    have hnone : site.files[dir ++ "/" ++ exe]? = none := Std.ExtTreeMap.getElem?_eq_none hb
    rw [or_iff_left hl, Keeps, hi, or_iff_right hs]
    constructor
    · rintro ⟨content, hc, hbin | ⟨path, hold, hpath⟩⟩
      · rw [step, hstate, hnone, ite_self] at hbin
        cases hbin
      · rw [step, hstate] at hpath
        split at hpath
        · cases hpath
        · exact ⟨content, hc, path, hold, hpath, ‹_›⟩
    · rintro ⟨content, hc, path, hold, hpath, hn⟩
      exact ⟨content, hc, .inr ⟨path, hold, by rw [step, hstate, if_neg hn, hpath]⟩⟩

theorem keeps_step_iff (h : site.Sound dir exe) (hk : site.Keeps dir exe) (i : Deployment α κ) :
    (site.step dir exe i).1.Keeps dir exe ↔ site.Careful dir exe i := by
  cases i with
  | upload content =>
    refine iff_of_true (hk.of_same rfl fun path hp => ?_) trivial
    rw [Site.step, Std.ExtTreeMap.getElem?_insert, if_neg (by simp [hp.symm])]
  | discard => exact iff_of_true (hk.of_same rfl fun path hp => Files.erase_ne hp.symm) trivial
  | swap stamp vs =>
    by_cases hb : site.installed = [] ∨ dir ++ "/" ++ exe ∈ site.files
    · exact iff_of_true (keeps_swap h hb stamp vs) (or_assoc.mp (.inl hb))
    · obtain ⟨hs, hm⟩ := not_or.mp hb
      rw [keeps_swap_absent hs hm, Careful, ← or_assoc, or_iff_right hb]

/-- Over any run of uploads and calls, an installed binary is left after every step
exactly when every call that starts without one in place is careful. -/
theorem keeps_iff (dir exe : String) (before : Files α) (steps : List (Deployment α κ)) :
    (∀ done, done <+: steps → (Machine.run (step dir exe) ⟨before, []⟩ done).Keeps dir exe) ↔
      ∀ done i, done ++ [i] <+: steps →
        (Machine.run (step dir exe) ⟨before, []⟩ done).Careful dir exe i := by
  have hsound : ∀ done : List (Deployment α κ),
      (Machine.run (step dir exe) ⟨before, []⟩ done).Sound dir exe := fun done =>
    Machine.run_preserves (fun _ i hs => hs.step i) (fun _ _ => .inl rfl) done
  constructor
  · intro h done i hp
    have hk := h (done ++ [i]) hp
    rw [Machine.run_concat] at hk
    exact (keeps_step_iff (hsound done) (h done ((List.prefix_append _ _).trans hp)) i).mp hk
  · intro h done
    induction done using List.reverseRecOn with
    | nil => exact fun _ => .inl rfl
    | append_singleton done i ih =>
      intro hp
      rw [Machine.run_concat]
      exact (keeps_step_iff (hsound done) (ih ((List.prefix_append _ _).trans hp)) i).mpr
        (h done i hp)

/-- A first deployment, a second one that is cut while the binary is aside, and a third one
that is cut after its clean-up. -/
def cutTwice : List (Deployment ℕ Unit) :=
  let works (names : List String) : Service Unit := ⟨false, ⟨(), ""⟩, true, names⟩
  [.upload 1, .swap 1 [works ["mai-probe.upload"], works [], works []],
    .upload 2, .swap 2 [works ["mai-probe", "mai-probe.upload"], works [], works [], works []],
    .upload 3, .swap 3 [works ["mai-probe.old", "mai-probe.upload"], works []]]

/-- The clean-up of a later call removes the only binary. -/
theorem not_keeps : ¬ ∀ (dir exe : String) (before : Files ℕ) (steps : List (Deployment ℕ Unit)),
    (Machine.run (step dir exe) ⟨before, []⟩ steps).Keeps dir exe := by
  intro h
  have hi : (Machine.run (step "bin" "mai-probe") ⟨∅, []⟩ cutTwice).installed = [1] := by
    decide +kernel
  have hf : (Machine.run (step "bin" "mai-probe") ⟨∅, []⟩ cutTwice).files.toList =
      [("bin/mai-probe.upload", 3)] := by
    decide +kernel
  have honly : ∀ path content, (Machine.run (step "bin" "mai-probe") ⟨∅, []⟩
      cutTwice).files[path]? = some content → path = "bin" ++ "/" ++ "mai-probe" ++ ".upload" := by
    intro path content hp
    rw [← Std.ExtTreeMap.mem_toList_iff_getElem?_eq_some, hf, List.mem_singleton] at hp
    exact congrArg Prod.fst hp
  rcases h "bin" "mai-probe" ∅ cutTwice with hk | ⟨content, -, hk | ⟨path, hold, hk⟩⟩
  · rw [hi] at hk
    cases hk
  · exact upload_ne_target (honly _ _ hk).symm
  · exact hold.ne_upload (honly _ _ hk)

end Site

end MultiAi
