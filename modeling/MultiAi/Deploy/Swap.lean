import Std.Data.ExtTreeMap
import Mathlib.Data.List.Basic
import MultiAi.Library.Asking

/-! # Putting a new probe binary in place

The files of a host are keyed by path. `swapIn` moves the binary aside, renames the
upload into its place and removes the old one; each of its operations may fail, and the
connection may drop before any of them.
-/

namespace MultiAi

open Asking

/-- An error of a file operation: its kind and its text. -/
structure IoError (κ : Type) where
  kind : κ
  text : String

/-- The file operations a swap needs, on `/`-separated paths. -/
inductive FileOp where
  | exists (path : String)
  | remove (path : String)
  | rename (source target : String)
  | list (dir : String)

namespace FileOp

/-- What an operation that works returns. -/
abbrev Result : FileOp → Type
  | .exists _ => Bool
  | .list _ => List String
  | .remove _ | .rename .. => Unit

end FileOp

/-- The answer to a file operation. -/
abbrev Answered (κ : Type) (op : FileOp) : Type := Except (IoError κ) op.Result

/-- The files of a host by path, with contents of any type. -/
abbrev Files (α : Type) := Std.ExtTreeMap String α

/-- How the host serves one operation: whether it makes it fail, the error of a failure,
whether a rename overwrites, and the names that a listing returns. -/
structure Service (κ : Type) where
  fails : Bool
  error : IoError κ
  overwrites : Bool
  names : List String

section Serving

variable {α κ : Type}

/-- A file under another path. -/
def Files.move (files : Files α) (source target : String) (content : α) : Files α :=
  (files.erase source).insert target content

/-- An operation that fails has no effect. -/
def serve (op : FileOp) (files : Files α) (v : Service κ) : Answered κ op × Files α :=
  if v.fails then (.error v.error, files)
  else
    match op with
    | .exists path => (.ok (decide (path ∈ files)), files)
    | .list _ => (.ok v.names, files)
    | .remove path => if path ∈ files then (.ok (), files.erase path) else (.error v.error, files)
    | .rename source target =>
      match files[source]? with
      | none => (.error v.error, files)
      | some content =>
        if target ∈ files ∧ !v.overwrites then (.error v.error, files)
        else (.ok (), files.move source target content)

end Serving

/-- A program over the files of a host. -/
abbrev FileProg (κ : Type) := Asking FileOp (Answered κ)

section Swap

variable {κ : Type}

/-- Remove files, going on where that fails. -/
def removeAll : List String → FileProg κ Unit
  | [] => .done ()
  | path :: paths => .ask (.remove path) fun _ => removeAll paths

/-- The leftovers among the names of a directory. -/
def leftovers (dir exe : String) (names : List String) : List String :=
  (names.filter (·.startsWith (exe ++ ".old"))).map (dir ++ "/" ++ ·)

/-- Best effort: leftovers of earlier swaps (still locked ones stay). -/
def cleanUp (dir exe : String) : FileProg κ Unit :=
  .ask (.list dir) fun
    | .error _ => .done ()
    | .ok names => removeAll (leftovers dir exe names)

/-- Move the old binary aside, if there is one. -/
def moveAside (target : String) (stamp : ℕ) :
    FileProg κ (Except (IoError κ) (Option String)) :=
  .ask (.exists target) fun
    | .error e => .done (.error e)
    | .ok false => .done (.ok none)
    | .ok true => .ask (.exists (target ++ ".old")) fun
      | .error e => .done (.error e)
      | .ok taken =>
        let name := if taken then target ++ ".old-" ++ toString stamp else target ++ ".old"
        .ask (.rename target name) fun
          | .error e => .done (.error e)
          | .ok () => .done (.ok (some name))

/-- Rename the upload into place; without that, put the old binary back so the host keeps
a working probe. -/
def putInPlace (target : String) (aside : Option String) :
    FileProg κ (Except (IoError κ) Unit) :=
  .ask (.rename (target ++ ".upload") target) fun
    | .error e =>
      match aside with
      | none => .done (.error e)
      | some name => .ask (.rename name target) fun
        | .error re =>
          .done (.error ⟨e.kind, e.text ++ "; restoring " ++ name ++ " also failed: " ++ re.text⟩)
        | .ok () => .done (.error e)
    | .ok () =>
      match aside with
      | none => .done (.ok ())
      | some name => .ask (.remove name) fun _ => .done (.ok ())

/-- Move the old binary aside and the upload into its place. -/
def install (target : String) (stamp : ℕ) : FileProg κ (Except (IoError κ) Unit) :=
  (moveAside target stamp).bind fun
    | .error e => .done (.error e)
    | .ok aside => putInPlace target aside

/-- Replace `<dir>/<exe>` with `<dir>/<exe>.upload`. -/
def swapIn (dir exe : String) (stamp : ℕ) : FileProg κ (Except (IoError κ) Unit) :=
  (cleanUp dir exe).bind fun () => install (dir ++ "/" ++ exe) stamp

end Swap


section Files

variable {α κ : Type} {files : Files α} {v : Service κ} {path other source target : String}
  {content : α}

theorem Files.erase_self : (files.erase path)[path]? = none := by
  simp

theorem Files.erase_ne (h : path ≠ other) : (files.erase path)[other]? = files[other]? := by
  simp [Std.ExtTreeMap.getElem?_erase, h]

theorem Files.move_target : (files.move source target content)[target]? = some content := by
  simp [Files.move]

theorem Files.move_source (h : target ≠ source) :
    (files.move source target content)[source]? = none := by
  simp [Files.move, h]

theorem Files.move_ne (hs : source ≠ other) (ht : target ≠ other) :
    (files.move source target content)[other]? = files[other]? := by
  simp [Files.move, Std.ExtTreeMap.getElem?_insert, ht, Files.erase_ne hs]

theorem serve_fails (op : FileOp) (h : v.fails = true) :
    serve op files v = (.error v.error, files) := by
  simp [serve, h]

theorem serve_exists_case :
    serve (.exists path) files v = (.error v.error, files) ∨
      serve (.exists path) files v = (.ok (decide (path ∈ files)), files) := by
  cases h : v.fails with
  | true => exact .inl (serve_fails _ h)
  | false => exact .inr (by simp [serve, h])

theorem serve_list_case {dir : String} :
    serve (.list dir) files v = (.error v.error, files) ∨
      serve (.list dir) files v = (.ok v.names, files) := by
  cases h : v.fails with
  | true => exact .inl (serve_fails _ h)
  | false => exact .inr (by simp [serve, h])

theorem serve_remove_case :
    serve (.remove path) files v = (.error v.error, files) ∨
      serve (.remove path) files v = (.ok (), files.erase path) := by
  cases h : v.fails with
  | true => exact .inl (serve_fails _ h)
  | false =>
    by_cases hm : path ∈ files
    · exact .inr (by simp [serve, h, hm])
    · exact .inl (by simp [serve, h, hm])

/-- A removal that is let through leaves nothing at its path. -/
theorem serve_remove_state (h : v.fails = false) :
    (serve (.remove path) files v).2[other]? = if path = other then none else files[other]? := by
  by_cases hm : path ∈ files
  · simp only [serve, h, Bool.false_eq_true, if_false, if_pos hm]
    by_cases hp : path = other
    · subst hp
      rw [if_pos rfl, Files.erase_self]
    · rw [if_neg hp, Files.erase_ne hp]
  · simp only [serve, h, Bool.false_eq_true, if_false, if_neg hm]
    by_cases hp : path = other
    · subst hp
      rw [if_pos rfl, Std.ExtTreeMap.getElem?_eq_none hm]
    · rw [if_neg hp]

theorem serve_rename_case :
    serve (.rename source target) files v = (.error v.error, files) ∨
      ∃ content, files[source]? = some content ∧
        serve (.rename source target) files v = (.ok (), files.move source target content) := by
  cases h : v.fails with
  | true => exact .inl (serve_fails _ h)
  | false =>
    cases hs : files[source]? with
    | none => exact .inl (by simp [serve, h, hs])
    | some content =>
      by_cases ht : target ∈ files ∧ v.overwrites = false
      · exact .inl (by simp [serve, h, hs, ht])
      · exact .inr ⟨content, rfl, by simp [serve, h, hs, ht]⟩

end Files

section Paths

variable {target path : String}

/-- A path that the target's leftovers have. -/
def IsOld (target path : String) : Prop := ∃ rest, path = target ++ ".old" ++ rest

/-- The names that the old binary is moved to. -/
def IsAside (target : String) (stamp : ℕ) (name : String) : Prop :=
  name = target ++ ".old" ∨ name = target ++ ".old-" ++ toString stamp

theorem IsAside.isOld {stamp : ℕ} (h : IsAside target stamp path) : IsOld target path := by
  rcases h with rfl | rfl
  · exact ⟨"", by simp⟩
  · refine ⟨"-" ++ toString stamp, ?_⟩
    rw [← String.toList_inj]
    simp

theorem upload_ne_target : target ++ ".upload" ≠ target := by
  intro h
  have := congrArg (fun s => s.toList.length) h
  simp at this

theorem IsOld.ne_target (h : IsOld target path) : path ≠ target := by
  rintro rfl
  obtain ⟨rest, h⟩ := h
  have := congrArg (fun s => s.toList.length) h
  simp at this

theorem IsOld.ne_upload (h : IsOld target path) : path ≠ target ++ ".upload" := by
  rintro rfl
  obtain ⟨rest, h⟩ := h
  have := congrArg String.toList h
  simp at this

theorem isOld_of_mem_leftovers {dir exe : String} {names : List String}
    (h : path ∈ leftovers dir exe names) : IsOld (dir ++ "/" ++ exe) path := by
  obtain ⟨name, hn, rfl⟩ := List.mem_map.mp h
  have hp := (List.mem_filter.mp hn).2
  simp only [String.startsWith_string_iff] at hp
  obtain ⟨rest, hr⟩ := hp
  refine ⟨String.ofList rest, ?_⟩
  rw [← String.toList_inj]
  simp [← hr]

end Paths


section Stages

variable {α κ : Type} (target : String) (stamp : ℕ) (before : Files α)

/-- A rename that put the upload in place. -/
def putsIn : Event (Answered κ) → Bool
  | ⟨.rename source into, .ok _⟩ => source = target ++ ".upload" ∧ into = target
  | _ => false

/-- The upload was put in place. -/
def placed (events : List (Event (Answered κ))) : Bool := events.any (putsIn target)

/-- Only the binary, its upload and its leftovers may differ. -/
def SameElsewhere (now : Files α) : Prop :=
  ∀ path, path ≠ target → path ≠ target ++ ".upload" → ¬ IsOld target path →
    now[path]? = before[path]?

/-- The binary and the upload are as before the call. -/
structure Kept (events : List (Event (Answered κ))) (now : Files α) : Prop where
  elsewhere : SameElsewhere target before now
  placed : placed target events = false
  binary : now[target]? = before[target]?
  upload : now[target ++ ".upload"]? = before[target ++ ".upload"]?

/-- The binary is under another name. -/
structure Moved (name : String) (events : List (Event (Answered κ))) (now : Files α) : Prop where
  elsewhere : SameElsewhere target before now
  placed : placed target events = false
  aside : IsAside target stamp name
  binary : now[target]? = none
  old : ∃ content, before[target]? = some content ∧ now[name]? = some content
  upload : now[target ++ ".upload"]? = before[target ++ ".upload"]?

/-- The upload is in place. -/
structure Placed (events : List (Event (Answered κ))) (now : Files α) : Prop where
  elsewhere : SameElsewhere target before now
  placed : placed target events = true
  binary : ∃ content, before[target ++ ".upload"]? = some content ∧ now[target]? = some content

/-- What can be found at any moment of a call. -/
inductive Stage (events : List (Event (Answered κ))) (now : Files α) : Prop
  | kept : Kept target before events now → Stage events now
  | moved {name : String} : Moved target stamp before name events now → Stage events now
  | placed : Placed target before events now → Stage events now

/-- The binary could not be put back and is still under the name that the error tells. -/
def RestoreFailed (events : List (Event (Answered κ))) (now : Files α) (e : IoError κ) : Prop :=
  ∃ name content swap restore, IsAside target stamp name ∧ before[target]? = some content ∧
    now[name]? = some content ∧
    ⟨.rename (target ++ ".upload") target, .error swap⟩ ∈ events ∧
    ⟨.rename name target, .error restore⟩ ∈ events ∧
    e = ⟨swap.kind, swap.text ++ "; restoring " ++ name ++ " also failed: " ++ restore.text⟩

/-- How a call ends. -/
def Ends (events : List (Event (Answered κ))) (now : Files α) : Except (IoError κ) Unit → Prop
  | .ok () => Placed target before events now
  | .error e => placed target events = false ∧
      (now[target]? = before[target]? ∨ RestoreFailed target stamp before events now e)

end Stages

section Calls

variable {α κ : Type} {target : String} {stamp : ℕ} {before now : Files α}
  {events : List (Event (Answered κ))} {name path : String}

theorem placed_append (first last : List (Event (Answered κ))) :
    placed target (first ++ last) = (placed target first || placed target last) :=
  List.any_append

theorem placed_concat (e : Event (Answered κ)) :
    placed target (events ++ [e]) = (placed target events || putsIn target e) := by
  simp [placed]

theorem SameElsewhere.erase_old (h : SameElsewhere target before now) (hp : IsOld target path) :
    SameElsewhere target before (now.erase path) := by
  intro other ht hu ho
  rw [Files.erase_ne (by rintro rfl; exact ho hp)]
  exact h other ht hu ho

/-- Between the binary, its upload and its leftovers, files can be moved. -/
theorem SameElsewhere.move {source into : String} {content : α}
    (h : SameElsewhere target before now)
    (hs : source = target ∨ source = target ++ ".upload" ∨ IsOld target source)
    (hi : into = target ∨ into = target ++ ".upload" ∨ IsOld target into) :
    SameElsewhere target before (now.move source into content) := by
  intro other ht hu ho
  have hne : ∀ {p}, p = target ∨ p = target ++ ".upload" ∨ IsOld target p → p ≠ other := by
    rintro p (rfl | rfl | hp) rfl
    · exact ht rfl
    · exact hu rfl
    · exact ho hp
  rw [Files.move_ne (hne hs) (hne hi)]
  exact h other ht hu ho

theorem Kept.event (h : Kept target before events now) {e : Event (Answered κ)}
    (he : putsIn target e = false) : Kept target before (events ++ [e]) now :=
  { h with placed := by rw [placed_concat, h.placed, he]; rfl }

theorem Kept.remove (h : Kept target before events now) {a : Answered κ (.remove path)}
    (hp : IsOld target path) :
    Kept target before (events ++ [⟨.remove path, a⟩]) (now.erase path) where
  elsewhere := h.elsewhere.erase_old hp
  placed := by rw [placed_concat, h.placed]; rfl
  binary := by rw [Files.erase_ne hp.ne_target, h.binary]
  upload := by rw [Files.erase_ne hp.ne_upload, h.upload]

theorem removeAll_safe {paths : List String} (hp : ∀ path ∈ paths, IsOld target path)
    (h : Kept target before events now) :
    (removeAll paths).Safe serve (Stage target stamp before)
      (fun events now _ => Kept target before events now) events now := by
  induction paths generalizing events now with
  | nil => exact ⟨.kept h, h⟩
  | cons path paths ih =>
    obtain ⟨hold, hp⟩ := List.forall_mem_cons.mp hp
    refine ⟨.kept h, fun v => ?_⟩
    rcases serve_remove_case with hs | hs
    · rw [hs]
      exact ih hp (h.event rfl)
    · rw [hs]
      exact ih hp (h.remove hold)

theorem cleanUp_safe {dir exe : String} (h : Kept (dir ++ "/" ++ exe) before events now) :
    (cleanUp dir exe).Safe serve (Stage (dir ++ "/" ++ exe) stamp before)
      (fun events now _ => Kept (dir ++ "/" ++ exe) before events now) events now := by
  refine ⟨.kept h, fun v => ?_⟩
  rcases serve_list_case with hs | hs
  · rw [hs]
    exact ⟨.kept (h.event rfl), h.event rfl⟩
  · rw [hs]
    exact removeAll_safe (fun _ => isOld_of_mem_leftovers) (h.event rfl)

/-- Moving the binary aside. -/
theorem Kept.moveAside (h : Kept target before events now) (ha : IsAside target stamp name)
    {content : α} (hc : now[target]? = some content) {a : Answered κ (.rename target name)} :
    Moved target stamp before name (events ++ [⟨.rename target name, a⟩])
      (now.move target name content) where
  elsewhere := h.elsewhere.move (.inl rfl) (.inr (.inr ha.isOld))
  placed := by
    rw [placed_concat, h.placed, Bool.false_or]
    cases a with
    | error e => rfl
    | ok u => exact decide_eq_false fun hp => upload_ne_target hp.1.symm
  aside := ha
  binary := Files.move_source ha.isOld.ne_target
  old := ⟨content, h.binary ▸ hc, Files.move_target⟩
  upload := by
    rw [Files.move_ne upload_ne_target.symm ha.isOld.ne_upload, h.upload]

theorem moveAside_safe (h : Kept target before events now) :
    (moveAside target stamp).Safe serve (Stage target stamp before)
      (fun events now r => match r with
        | .error _ | .ok none => Kept target before events now
        | .ok (some name) => Moved target stamp before name events now) events now := by
  refine ⟨.kept h, fun v => ?_⟩
  rcases serve_exists_case with hs | hs
  · rw [hs]
    exact ⟨.kept (h.event rfl), h.event rfl⟩
  rw [hs]
  cases decide (target ∈ now) with
  | false => exact ⟨.kept (h.event rfl), h.event rfl⟩
  | true =>
    replace h := h.event (e := ⟨.exists target, .ok true⟩) rfl
    refine ⟨.kept h, fun v => ?_⟩
    rcases serve_exists_case with hs | hs
    · rw [hs]
      exact ⟨.kept (h.event rfl), h.event rfl⟩
    rw [hs]
    generalize decide (target ++ ".old" ∈ now) = taken
    replace h := h.event (e := ⟨.exists (target ++ ".old"), .ok taken⟩) rfl
    have ha : IsAside target stamp
        (if taken then target ++ ".old-" ++ toString stamp else target ++ ".old") := by
      cases taken with
      | false => exact .inl rfl
      | true => exact .inr rfl
    refine ⟨.kept h, fun v => ?_⟩
    rcases serve_rename_case with hs | ⟨content, hc, hs⟩
    · rw [hs]
      exact ⟨.kept (h.event rfl), h.event rfl⟩
    · rw [hs]
      have hm := h.moveAside (a := .ok ()) ha hc
      exact ⟨.moved hm, hm⟩

theorem Moved.event (h : Moved target stamp before name events now) {e : Event (Answered κ)}
    (he : putsIn target e = false) : Moved target stamp before name (events ++ [e]) now :=
  { h with placed := by rw [placed_concat, h.placed, he]; rfl }

theorem Moved.restore (h : Moved target stamp before name events now) {content : α}
    (hc : now[name]? = some content) :
    Kept target before (events ++ [⟨.rename name target, .ok ()⟩])
      (now.move name target content) where
  elsewhere := h.elsewhere.move (.inr (.inr h.aside.isOld)) (.inl rfl)
  placed := by
    rw [placed_concat, h.placed, Bool.false_or]
    exact decide_eq_false fun hp => h.aside.isOld.ne_upload hp.1
  binary := by
    obtain ⟨old, hb, ho⟩ := h.old
    rw [Files.move_target, hb, ← ho, hc]
  upload := by
    rw [Files.move_ne h.aside.isOld.ne_upload upload_ne_target.symm, h.upload]

/-- Putting the upload in place. -/
theorem SameElsewhere.put (h : SameElsewhere target before now)
    (hu : now[target ++ ".upload"]? = before[target ++ ".upload"]?) {content : α}
    (hc : now[target ++ ".upload"]? = some content) (events : List (Event (Answered κ))) :
    Placed target before (events ++ [⟨.rename (target ++ ".upload") target, .ok ()⟩])
      (now.move (target ++ ".upload") target content) where
  elsewhere := h.move (.inr (.inl rfl)) (.inl rfl)
  placed := by
    rw [placed_concat, Bool.or_eq_true]
    exact .inr (decide_eq_true ⟨rfl, rfl⟩)
  binary := ⟨content, hu ▸ hc, Files.move_target⟩

theorem Placed.remove (h : Placed target before events now) {a : Answered κ (.remove path)}
    (hp : IsOld target path) :
    Placed target before (events ++ [⟨.remove path, a⟩]) (now.erase path) where
  elsewhere := h.elsewhere.erase_old hp
  placed := by rw [placed_concat, h.placed]; rfl
  binary := by
    obtain ⟨content, hu, hc⟩ := h.binary
    exact ⟨content, hu, by rw [Files.erase_ne hp.ne_target, hc]⟩

theorem Placed.event (h : Placed target before events now) (e : Event (Answered κ)) :
    Placed target before (events ++ [e]) now :=
  { h with placed := by rw [placed_concat, h.placed]; rfl }

theorem putInPlace_safe_none (h : Kept target before events now) :
    (putInPlace target none).Safe serve (Stage target stamp before) (Ends target stamp before)
      events now := by
  refine ⟨.kept h, fun v => ?_⟩
  rcases serve_rename_case with hs | ⟨content, hc, hs⟩
  · rw [hs]
    have hk := h.event (e := ⟨.rename (target ++ ".upload") target, .error v.error⟩) rfl
    exact ⟨.kept hk, hk.placed, .inl hk.binary⟩
  · rw [hs]
    have hp := h.elsewhere.put h.upload hc events
    exact ⟨.placed hp, hp⟩

theorem putInPlace_safe_some (h : Moved target stamp before name events now) :
    (putInPlace target (some name)).Safe serve (Stage target stamp before)
      (Ends target stamp before) events now := by
  refine ⟨.moved h, fun v => ?_⟩
  rcases serve_rename_case with hs | ⟨content, hc, hs⟩
  · rw [hs]
    have hm := h.event (e := ⟨.rename (target ++ ".upload") target, .error v.error⟩) rfl
    refine ⟨.moved hm, fun w => ?_⟩
    rcases serve_rename_case with hr | ⟨content, hc, hr⟩
    · rw [hr]
      have hm' := hm.event (e := ⟨.rename name target, .error w.error⟩) rfl
      obtain ⟨content, hb, hn⟩ := h.old
      refine ⟨.moved hm', hm'.placed, .inr ?_⟩
      exact ⟨name, content, v.error, w.error, h.aside, hb, hn, by simp, by simp, rfl⟩
    · rw [hr]
      have hk := hm.restore hc
      exact ⟨.kept hk, hk.placed, .inl hk.binary⟩
  · rw [hs]
    have hp := h.elsewhere.put h.upload hc events
    refine ⟨.placed hp, fun w => ?_⟩
    rcases serve_remove_case with hr | hr
    · rw [hr]
      exact ⟨.placed (hp.event _), hp.event _⟩
    · rw [hr]
      exact ⟨.placed (hp.remove h.aside.isOld), hp.remove h.aside.isOld⟩

theorem swapIn_safe {dir exe : String} (h : Kept (dir ++ "/" ++ exe) before events now) :
    (swapIn dir exe stamp).Safe serve (Stage (dir ++ "/" ++ exe) stamp before)
      (Ends (dir ++ "/" ++ exe) stamp before) events now := by
  refine Safe.bind (Safe.mono (cleanUp_safe h) ?_)
  rintro events now ⟨⟩ hk
  refine Safe.bind (Safe.mono (moveAside_safe hk) ?_)
  rintro events now (e | aside | name) hr
  · exact ⟨.kept hr, hr.placed, .inl hr.binary⟩
  · exact putInPlace_safe_none hr
  · exact putInPlace_safe_some hr

/-- Whatever fails and wherever the connection drops, a call leaves the binary, its aside
copy or the upload in place. -/
theorem swapIn_stage (dir exe : String) (stamp : ℕ) (before : Files α) (vs : List (Service κ)) :
    let r := (swapIn dir exe stamp).run serve before vs
    Stage (dir ++ "/" ++ exe) stamp before r.events r.state ∧
      ∀ result, r.result = some result →
        Ends (dir ++ "/" ++ exe) stamp before r.events r.state result :=
  have h : Kept (κ := κ) (dir ++ "/" ++ exe) before [] before :=
    ⟨fun _ _ _ _ => rfl, rfl, rfl, rfl⟩
  (swapIn_safe h).run vs

theorem Stage.elsewhere (h : Stage target stamp before events now) :
    SameElsewhere target before now := by
  cases h with
  | kept h => exact h.elsewhere
  | moved h => exact h.elsewhere
  | placed h => exact h.elsewhere

/-- One call never leaves the host without its binary. -/
theorem swapIn_intact (dir exe : String) (stamp : ℕ) (before : Files α)
    (vs : List (Service κ)) :
    let target := dir ++ "/" ++ exe
    let r := (swapIn dir exe stamp).run serve before vs
    (r.result = some (.ok ()) → ∃ content, before[target ++ ".upload"]? = some content ∧
        r.state[target]? = some content) ∧
      (∀ e, r.result = some (.error e) → r.state[target]? = before[target]? ∨
        RestoreFailed target stamp before r.events r.state e) ∧
      (∀ path, path ≠ target → path ≠ target ++ ".upload" → ¬ IsOld target path →
        r.state[path]? = before[path]?) ∧
      ∀ content, before[target]? = some content → r.state[target]? = some content ∨
        (∃ name, IsAside target stamp name ∧ r.state[name]? = some content) ∨
        placed target r.events = true ∧ r.state[target]? = before[target ++ ".upload"]? := by
  obtain ⟨hstage, hends⟩ := swapIn_stage dir exe stamp before vs
  refine ⟨fun hr => (hends _ hr).binary, fun e hr => (hends _ hr).2, hstage.elsewhere, ?_⟩
  intro content hc
  cases hstage with
  | kept h => exact .inl (h.binary.trans hc)
  | @moved name h =>
    obtain ⟨old, hb, ho⟩ := h.old
    rw [Option.some.inj (hc.symm.trans hb)]
    exact .inr (.inl ⟨name, h.aside, ho⟩)
  | placed h =>
    obtain ⟨new, hu, hn⟩ := h.binary
    exact .inr (.inr ⟨h.placed, hn.trans hu.symm⟩)

end Calls

end MultiAi
