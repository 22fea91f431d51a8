import MultiAi.Hooks.Edit

/-! # Edits are atomic

The config keeps its old bytes until the rename, which puts the whole new document in their
place. Copying and writing touch only the backup and the temporary name; these must not lead to
the config, and the rename must go to the end of the links.
-/

namespace MultiAi.Hooks

open Asking

section Properties

variable (parse : String → Option Json) (pretty : Json → String) (pid hops : ℕ) (path : Path)
  (nowMs : ℕ) (e : Edit) (d s : Disk)

/-- The document that a config is read as. -/
def docOf : Except FileError ByteArray → Option Json
  | .ok bytes => (String.fromUTF8? bytes).bind (docOfText parse)
  | .error .notFound => some (.obj [])
  | .error (.other _) => none

/-- The edited document is in place, and the backup holds what was there. -/
structure Replaced : Prop where
  document : ∃ before after, docOf parse (d.content hops path) = some before ∧
    e.edit before = .ok after ∧ s.content hops path = .ok (docText pretty after).toUTF8
  old : ∀ bytes, d.content hops path = .ok bytes → ∃ target, d.follow hops path = some target ∧
    s.content hops (backup target nowMs) = .ok bytes

/-- An edit is done or not done, whatever came of it. -/
structure Atomic (result : Option (Except InstallError Outcome)) : Prop where
  links : d.SameLinks s
  whole : s.content hops path = d.content hops path ∨
    Replaced parse pretty hops path nowMs e d s
  failed : ∀ error, result = some (.error error) → s.content hops path = d.content hops path
  unchanged : result = some (.ok .unchanged) → s = d
  changed : result = some (.ok e.changed) → Replaced parse pretty hops path nowMs e d s

/-- The names that an edit writes to are not links to the config, nor other names of it. -/
def Clear : Prop := ∀ target, d.follow hops path = some target →
  ¬d.IsLink (temporary pid target) ∧ ¬d.Same (temporary pid target) target ∧
    (d.node target ≠ none → ∀ bak, d.follow hops (backup target nowMs) = some bak →
      ¬d.Same bak target ∧ ¬d.Same bak (temporary pid target))

/-- No link was taken for something else because it could not be looked at. -/
def LinksSeen (events : List (Event ConfigAns)) : Prop :=
  ∀ link error, ⟨.symlinkMetadata link, .error error⟩ ∈ events → ¬d.IsLink link

end Properties

section Serves

variable {hops : ℕ} {d : Disk} {p q r x : Path} {bytes : ByteArray} {mode : ℕ} {fate : Fate}

/-- Storing fails and does nothing, or it writes at the end of the path. -/
theorem store_cases (hops : ℕ) (d : Disk) (p : Path) (bytes : ByteArray) (mode : ℕ) (fate : Fate) :
    (∃ e, store hops d p bytes mode fate = (.error e, d)) ∨
      ∃ q, d.follow hops p = some q ∧ (∀ m, d.node q ≠ some (.other m)) ∧
        ((∃ e part, store hops d p bytes mode fate = (.error e, d.write q ⟨part, mode⟩)) ∨
          store hops d p bytes mode fate = (.ok (), d.write q ⟨bytes, mode⟩)) := by
  rw [store]
  cases hq : d.follow hops p with
  | none => exact .inl ⟨_, rfl⟩
  | some q =>
    by_cases ho : ∃ m, d.node q = some (.other m)
    · obtain ⟨m, ho⟩ := ho
      simp [ho]
    · have ho' (m : ℕ) : d.node q ≠ some (.other m) := fun h => ho ⟨m, h⟩
      cases fate with
      | works => exact .inr ⟨q, rfl, ho', .inr (by simp)⟩
      | fails text => exact .inl ⟨.other text, by simp⟩
      | breaks text written => exact .inr ⟨q, rfl, ho', .inl ⟨.other text, bytes.extract 0 written, by simp⟩⟩

theorem store_sameLinks : d.SameLinks (store hops d p bytes mode fate).2 := by
  obtain ⟨e, h⟩ | ⟨q, -, -, ⟨e, part, h⟩ | h⟩ := store_cases hops d p bytes mode fate <;> rw [h]
  · exact .refl
  · exact Disk.write_sameLinks
  · exact Disk.write_sameLinks

theorem store_same : (store hops d p bytes mode fate).2.Same q r ↔ d.Same q r := by
  obtain ⟨e, h⟩ | ⟨q, -, -, ⟨e, part, h⟩ | h⟩ := store_cases hops d p bytes mode fate <;> rw [h]
  · exact Disk.same_write
  · exact Disk.same_write

theorem store_content_ne (hx : d.follow hops x = some r)
    (hp : ∀ q, d.follow hops p = some q → ¬d.Same q r) :
    (store hops d p bytes mode fate).2.content hops x = d.content hops x := by
  obtain ⟨e, h⟩ | ⟨q, hq, -, ⟨e, part, h⟩ | h⟩ := store_cases hops d p bytes mode fate <;> rw [h]
  · exact Disk.content_write_ne hx (hp q hq)
  · exact Disk.content_write_ne hx (hp q hq)

theorem store_content (h : (store hops d p bytes mode fate).1 = .ok ()) :
    (store hops d p bytes mode fate).2.content hops p = .ok bytes := by
  obtain ⟨e, hs⟩ | ⟨q, hq, ho, ⟨e, part, hs⟩ | hs⟩ := store_cases hops d p bytes mode fate <;>
    rw [hs] at h ⊢
  · cases h
  · cases h
  · rw [Disk.content_eq (Disk.write_sameLinks.follow.trans hq),
      Disk.readAt_write (Disk.follow_not_link hq) ho]

/-- Copying fails and does nothing, or it stores once or twice. -/
theorem copyFile_cases (hops : ℕ) (d : Disk) (p q : Path) (fate : Fate) :
    (∃ e, copyFile hops d p q fate = (.error e, d)) ∨ ∃ mode,
      (∃ e, copyFile hops d p q fate = (.error e, (store hops d q .empty mode .works).2)) ∨
        ∃ bytes, (store hops d q .empty mode .works).2.content hops p = .ok bytes ∧
          copyFile hops d p q fate =
            store hops (store hops d q .empty mode .works).2 q bytes mode fate := by
  unfold copyFile
  split
  · exact .inl ⟨_, rfl⟩
  · exact .inl ⟨_, rfl⟩
  · exact .inl ⟨_, rfl⟩
  · rename_i mode _ _ _
    refine .inr ⟨mode, ?_⟩
    split
    · rename_i hs
      exact .inl ⟨_, by rw [hs]⟩
    · rename_i hs
      rw [hs]
      split
      · exact .inl ⟨_, rfl⟩
      · exact .inr ⟨_, ‹_›, rfl⟩

theorem copyFile_sameLinks : d.SameLinks (copyFile hops d p q fate).2 := by
  obtain ⟨e, h⟩ | ⟨mode, ⟨e, h⟩ | ⟨bytes, -, h⟩⟩ := copyFile_cases hops d p q fate <;> rw [h]
  · exact .refl
  · exact store_sameLinks
  · exact store_sameLinks.trans store_sameLinks

theorem copyFile_same {y : Path} : (copyFile hops d p q fate).2.Same x y ↔ d.Same x y := by
  obtain ⟨e, h⟩ | ⟨mode, ⟨e, h⟩ | ⟨bytes, -, h⟩⟩ := copyFile_cases hops d p q fate <;> rw [h]
  · exact store_same
  · exact store_same.trans store_same

theorem copyFile_content_ne (hx : d.follow hops x = some r)
    (hq : ∀ b, d.follow hops q = some b → ¬d.Same b r) :
    (copyFile hops d p q fate).2.content hops x = d.content hops x := by
  obtain ⟨e, h⟩ | ⟨mode, ⟨e, h⟩ | ⟨bytes, -, h⟩⟩ := copyFile_cases hops d p q fate <;> rw [h]
  · exact store_content_ne hx hq
  · rw [store_content_ne (store_sameLinks.follow.trans hx) fun b hb => ?_, store_content_ne hx hq]
    rw [store_same]
    exact hq b (store_sameLinks.follow ▸ hb)

/-- A copy that is made has what was in the file, if it is none of its own names. -/
theorem copyFile_content (hp : d.follow hops p = some r)
    (hq : ∀ b, d.follow hops q = some b → ¬d.Same b r)
    (h : (copyFile hops d p q fate).1 = .ok ()) :
    (copyFile hops d p q fate).2.content hops q = d.content hops p := by
  obtain ⟨e, hs⟩ | ⟨mode, ⟨e, hs⟩ | ⟨bytes, hb, hs⟩⟩ := copyFile_cases hops d p q fate <;>
    rw [hs] at h ⊢
  · cases h
  · cases h
  · rw [store_content h, ← hb, store_content_ne hp hq]

theorem serve_write (hops : ℕ) (p : Path) (text : String) (d : Disk) (fate : Fate) :
    ∃ mode, serve hops (.write p text) d fate = store hops d p text.toUTF8 mode fate := ⟨_, rfl⟩

theorem serve_setPermissions (mode : ℕ) (h : d.content hops p = .ok bytes) (fate : Fate) :
    (∃ e, serve hops (.setPermissions p mode) d fate = (.error e, d)) ∨
      serve hops (.setPermissions p mode) d fate = store hops d p bytes mode .works := by
  cases fate with
  | works => exact .inr (by simp only [serve, h])
  | _ => exact .inl ⟨_, rfl⟩

theorem serve_symlinkMetadata (hops : ℕ) (p : Path) (d : Disk) (fate : Fate) :
    (∃ e, serve hops (.symlinkMetadata p) d fate = (.error e, d)) ∨
      (serve hops (.symlinkMetadata p) d fate = (.ok true, d) ∧ d.IsLink p) ∨
        (serve hops (.symlinkMetadata p) d fate = (.ok false, d) ∧ ¬d.IsLink p) := by
  cases fate with
  | works =>
    simp only [serve, Disk.IsLink]
    cases d.node p with
    | none => exact .inl ⟨_, rfl⟩
    | some n => cases n <;> simp
  | _ => exact .inl ⟨_, rfl⟩

theorem serve_readLink (hops : ℕ) (p : Path) (d : Disk) (fate : Fate) :
    (serve hops (.readLink p) d fate).2 = d := by
  cases fate <;> rfl

theorem serve_readLink_ok {dest : Path} (h : (serve hops (.readLink p) d fate).1 = .ok dest) :
    d.node p = some (.link dest) := by
  cases fate with
  | works =>
    simp only [serve] at h
    split at h <;> cases h
    assumption
  | _ => cases h

theorem serve_metadata (hops : ℕ) (p : Path) (d : Disk) (fate : Fate) :
    (∃ text, serve hops (.metadata p) d fate = (.error (.other text), d)) ∨
      serve hops (.metadata p) d fate = (d.mode hops p, d) := by
  cases fate with
  | works => exact .inr rfl
  | _ => exact .inl ⟨_, rfl⟩

/-- What is read is what the path leads to. -/
theorem serve_read (parse : String → Option Json) (hops : ℕ) (p : Path) (d : Disk) (fate : Fate) :
    (serve hops (.read p) d fate).2 = d ∧
      (∀ text, (serve hops (.read p) d fate).1 = .ok text →
        docOf parse (d.content hops p) = docOfText parse text) ∧
      ((serve hops (.read p) d fate).1 = .error .notFound →
        docOf parse (d.content hops p) = some (.obj [])) := by
  cases fate with
  | works =>
    refine ⟨rfl, fun text h => ?_, fun h => ?_⟩ <;> simp only [serve] at h
    · split at h
      · rename_i bytes hc
        rw [hc]
        split at h <;> cases h
        rw [docOf, ‹String.fromUTF8? bytes = _›, Option.bind_some]
      · cases h
    · split at h
      · split at h <;> cases h
      · rename_i hc
        cases h
        rw [hc, docOf]
  | _ => exact ⟨rfl, nofun, nofun⟩

end Serves

section Safety

variable {parse : String → Option Json} {pretty : Json → String} {pid hops nowMs mode : ℕ}
  {path target : Path} {e : Edit} {d s : Disk} {h : List (Event ConfigAns)} {ρ : Type}
  {C : List (Event ConfigAns) → Disk → Prop}
  {Q : List (Event ConfigAns) → Disk → Except InstallError ρ → Prop}

theorem attempt_safe {op : ConfigOp} {next : op.Result → ConfigProgram ρ} (hc : C h s)
    (hfails : ∀ v error, (serve hops op s v).1 = .error error →
      C (h ++ [⟨op, .error error⟩]) (serve hops op s v).2 ∧
        Q (h ++ [⟨op, .error error⟩]) (serve hops op s v).2 (.error (.io path error)))
    (hworks : ∀ v r, (serve hops op s v).1 = .ok r →
      (next r).Safe (serve hops) C Q (h ++ [⟨op, .ok r⟩]) (serve hops op s v).2) :
    (attempt path op next).Safe (serve hops) C Q h s := by
  refine ⟨hc, fun v => ?_⟩
  cases hv : (serve hops op s v).1 with
  | error error => exact hfails v error hv
  | ok r => exact hworks v r hv

/-- The config is as it was, and the temporary name leads to something else. -/
structure Ready (hops pid : ℕ) (path target : Path) (d s : Disk) : Prop where
  links : d.SameLinks s
  content : s.content hops path = d.content hops path
  plain : ¬d.IsLink (temporary pid target)
  apart : ¬s.Same (temporary pid target) target

/-- The backup holds what was there, apart from the names that are still to change. -/
def Backed (hops pid nowMs : ℕ) (path target : Path) (d s : Disk) : Prop :=
  ∀ bytes, d.content hops path = .ok bytes →
    s.content hops (backup target nowMs) = .ok bytes ∧
      ∃ bak, s.follow hops (backup target nowMs) = some bak ∧ ¬s.Same bak target ∧
        ¬s.Same bak (temporary pid target)

/-- What holds all along: no link goes, and the config is whole. -/
def Whole (parse : String → Option Json) (pretty : Json → String) (hops : ℕ) (path : Path)
    (nowMs : ℕ) (e : Edit) (d s : Disk) : Prop :=
  d.SameLinks s ∧ (s.content hops path = d.content hops path ∨
    Replaced parse pretty hops path nowMs e d s)

/-- What holds when the write ends. -/
def Written (parse : String → Option Json) (pretty : Json → String) (hops : ℕ) (path : Path)
    (nowMs : ℕ) (e : Edit) (d s : Disk) : Except InstallError Unit → Prop
  | .ok () => Replaced parse pretty hops path nowMs e d s
  | .error _ => s.content hops path = d.content hops path

theorem Ready.failed {error : InstallError} (hr : Ready hops pid path target d s) :
    Whole parse pretty hops path nowMs e d s ∧
      Written parse pretty hops path nowMs e d s (.error error) :=
  ⟨⟨hr.links, .inl hr.content⟩, hr.content⟩

section Replacing

variable {after : Json} (ht : d.follow hops path = some target)
  (hafter : ∃ before, docOf parse (d.content hops path) = some before ∧ e.edit before = .ok after)

include ht

theorem Ready.store {p : Path} {bytes : ByteArray} {fate : Fate}
    (hr : Ready hops pid path target d s)
    (hp : ∀ q, s.follow hops p = some q → ¬s.Same q target) :
    Ready hops pid path target d (store hops s p bytes mode fate).2 := by
  constructor
  · exact hr.links.trans store_sameLinks
  · rw [store_content_ne (hr.links.follow.trans ht) hp, hr.content]
  · exact hr.plain
  · exact store_same.not.mpr hr.apart

omit ht in
theorem Ready.follow {q : Path} (hr : Ready hops pid path target d s)
    (hq : s.follow hops (temporary pid target) = some q) : q = temporary pid target := by
  cases hops with
  | zero => cases hq
  | succ hops =>
    rw [hr.links.follow, Disk.follow_end hr.plain] at hq
    exact (Option.some.inj hq).symm

/-- Storing at the temporary name. -/
theorem Ready.store_temporary {bytes : ByteArray} {fate : Fate}
    (hr : Ready hops pid path target d s) :
    Ready hops pid path target d (Hooks.store hops s (temporary pid target) bytes mode fate).2 :=
  hr.store ht fun _ hq => hr.follow hq ▸ hr.apart

omit ht in
theorem Backed.store_temporary {bytes : ByteArray} {fate : Fate}
    (hr : Ready hops pid path target d s) (hb : Backed hops pid nowMs path target d s) :
    Backed hops pid nowMs path target d
      (store hops s (temporary pid target) bytes mode fate).2 := by
  intro old ho
  obtain ⟨hold, bak, hbak, hbt, hbp⟩ := hb old ho
  constructor
  · rw [store_content_ne hbak fun q hq => hr.follow hq ▸ fun hs => hbp hs.symm, hold]
  · exact ⟨bak, store_sameLinks.follow.trans hbak, store_same.not.mpr hbt, store_same.not.mpr hbp⟩

include hafter

theorem rename_safe (hr : Ready hops pid path target d s)
    (hb : Backed hops pid nowMs path target d s)
    (hn : s.content hops (temporary pid target) = .ok (docText pretty after).toUTF8) :
    (attempt path (.rename (temporary pid target) target) fun _ =>
      .done (.ok ())).Safe (serve hops)
        (fun _ s => Whole parse pretty hops path nowMs e d s)
        (fun _ s r => Written parse pretty hops path nowMs e d s r) h s := by
  have hbefore : Whole parse pretty hops path nowMs e d s := ⟨hr.links, .inl hr.content⟩
  have hnot : ¬s.IsLink target := hr.links.isLink.not.mpr (Disk.follow_not_link ht)
  have hplain : ¬s.IsLink (temporary pid target) := hr.links.isLink.not.mpr hr.plain
  have hread : s.readAt (temporary pid target) = .ok (docText pretty after).toUTF8 := by
    cases hops with
    | zero => cases ht
    | succ hops => rw [← hn, Disk.content_eq (Disk.follow_end hplain)]
  have hlinks : s.SameLinks (s.move (temporary pid target) target) :=
    Disk.move_sameLinks hplain hnot
  have hreplaced : Replaced parse pretty hops path nowMs e d
      (s.move (temporary pid target) target) := by
    constructor
    · obtain ⟨before, hdoc, hedit⟩ := hafter
      refine ⟨before, after, hdoc, hedit, ?_⟩
      rw [Disk.content_eq ((hr.links.trans hlinks).follow.trans ht), Disk.readAt_move hr.apart,
        hread]
    · intro old ho
      obtain ⟨hold, bak, hbak, hbt, hbp⟩ := hb old ho
      refine ⟨target, ht, ?_⟩
      rw [Disk.content_eq (hlinks.follow.trans hbak), Disk.readAt_move_ne hbp hbt, ← hold,
        Disk.content_eq hbak]
  have hcases (v : Fate) :
      (∃ error, serve hops (.rename (temporary pid target) target) s v = (.error error, s)) ∨
        serve hops (.rename (temporary pid target) target) s v =
          (.ok (), s.move (temporary pid target) target) := by
    cases v with
    | works =>
      simp only [serve]
      split
      · exact .inl ⟨_, rfl⟩
      · exact .inl ⟨_, rfl⟩
      · exact .inr rfl
    | _ => exact .inl ⟨_, rfl⟩
  refine attempt_safe hbefore (fun v error hv => ?_) fun v r hv => ?_
  · obtain ⟨_, hs⟩ | hs := hcases v <;> rw [hs] at hv ⊢
    · exact ⟨hbefore, hr.content⟩
    · cases hv
  · obtain ⟨_, hs⟩ | hs := hcases v <;> rw [hs] at hv ⊢
    · cases hv
    · exact ⟨⟨hr.links.trans hlinks, .inr hreplaced⟩, hreplaced⟩

theorem replace_safe {mode : Option ℕ} (hr : Ready hops pid path target d s)
    (hb : Backed hops pid nowMs path target d s) :
    (replace pid path target mode (docText pretty after)).Safe (serve hops)
      (fun _ s => Whole parse pretty hops path nowMs e d s)
      (fun _ s r => Written parse pretty hops path nowMs e d s r) h s := by
  refine attempt_safe ⟨hr.links, .inl hr.content⟩ (fun v error hv => ?_) fun v r hv => ?_
  · obtain ⟨m, hs⟩ := serve_write hops (temporary pid target) (docText pretty after) s v
    rw [hs]
    exact (hr.store_temporary ht).failed
  · obtain ⟨m, hs⟩ := serve_write hops (temporary pid target) (docText pretty after) s v
    rw [hs] at hv ⊢
    have hr' : Ready hops pid path target d
        (store hops s (temporary pid target) (docText pretty after).toUTF8 m v).2 :=
      hr.store_temporary ht
    have hb' : Backed hops pid nowMs path target d
        (store hops s (temporary pid target) (docText pretty after).toUTF8 m v).2 :=
      hb.store_temporary hr
    have hn := store_content hv
    cases mode with
    | none => exact rename_safe ht hafter hr' hb' hn
    | some mode =>
      refine attempt_safe ⟨hr'.links, .inl hr'.content⟩ (fun v error hv => ?_) fun v r hv => ?_
      · obtain ⟨_, hs⟩ | hs := serve_setPermissions mode hn v <;> rw [hs]
        · exact hr'.failed
        · exact (hr'.store_temporary ht).failed
      · obtain ⟨_, hs⟩ | hs := serve_setPermissions mode hn v <;> rw [hs] at hv ⊢
        · cases hv
        · exact rename_safe ht hafter (hr'.store_temporary ht) (hb'.store_temporary hr')
            (store_content hv)

end Replacing

section Looking

variable {Q : List (Event ConfigAns) → Disk → Except InstallError Path → Prop}

theorem writeTarget_safe (links : ℕ) (hreach : d.Reaches path target) (hC : ∀ h, C h d)
    (hQ : ∀ h r, (∀ t, r = .ok t → LinksSeen d h → d.Reaches path t ∧ ¬d.IsLink t) → Q h d r) :
    (writeTarget path links target).Safe (serve hops) C Q h d := by
  induction links generalizing target h with
  | zero => exact ⟨hC h, hQ h _ nofun⟩
  | succ links ih =>
    refine ⟨hC h, fun v => ?_⟩
    obtain ⟨error, hs⟩ | ⟨hs, hl⟩ | ⟨hs, hl⟩ := serve_symlinkMetadata hops target d v <;> rw [hs]
    · refine ⟨hC _, hQ _ _ fun t ht hseen => ?_⟩
      cases ht
      exact ⟨hreach, hseen target error (List.mem_append_right _ List.mem_cons_self)⟩
    · refine attempt_safe (hC _) (fun v error hv => ?_) fun v dest hv => ?_
      · rw [serve_readLink]
        exact ⟨hC _, hQ _ _ nofun⟩
      · rw [serve_readLink]
        exact ih (.link hreach (serve_readLink_ok hv))
    · refine ⟨hC _, hQ _ _ fun t ht _ => ?_⟩
      cases ht
      exact ⟨hreach, hl⟩

end Looking

theorem readDoc_safe {Q : List (Event ConfigAns) → Disk → Except InstallError Json → Prop}
    (hC : ∀ h, C h d)
    (hQ : ∀ h r, (∀ doc, r = .ok doc → docOf parse (d.content hops path) = some doc) → Q h d r) :
    (readDoc parse path).Safe (serve hops) C Q h d := by
  refine ⟨hC h, fun v => ?_⟩
  obtain ⟨hs, htext, hnone⟩ := serve_read parse hops path d v
  rw [hs]
  cases hv : (serve hops (.read path) d v).1 with
  | ok text =>
    refine ⟨hC _, hQ _ _ fun doc hdoc => ?_⟩
    rw [htext text hv]
    split at hdoc
    · cases hdoc
      assumption
    · cases hdoc
  | error error =>
    cases error with
    | notFound =>
      refine ⟨hC _, hQ _ _ fun doc hdoc => ?_⟩
      cases hdoc
      exact hnone hv
    | other text => exact ⟨hC _, hQ _ _ nofun⟩

/-- Nothing is claimed where a link went unseen. -/
theorem unseen_safe {X : Disk → Prop} {Y : Disk → Except InstallError ρ → Prop}
    {p : ConfigProgram ρ} (hn : ¬LinksSeen d h) :
    p.Safe (serve hops) (fun h s => LinksSeen d h → X s) (fun h s r => LinksSeen d h → Y s r)
      h s := by
  induction p generalizing h s with
  | done r => exact ⟨fun hc => absurd hc hn, fun hc => absurd hc hn⟩
  | ask op next ih =>
    refine ⟨fun hc => absurd hc hn, fun v => ih _ fun hseen => hn ?_⟩
    exact fun link error hm => hseen link error (List.mem_append_left _ hm)

theorem seen_safe {X : Disk → Prop} {Y : Disk → Except InstallError ρ → Prop}
    {p : ConfigProgram ρ} (hp : p.Safe (serve hops) (fun _ s => X s) (fun _ s r => Y s r) h s) :
    p.Safe (serve hops) (fun h s => LinksSeen d h → X s) (fun h s r => LinksSeen d h → Y s r)
      h s := hp.imp (fun _ _ hc _ => hc) fun _ _ _ hq _ => hq

theorem docOf_follow {doc : Json} (hdoc : docOf parse (d.content hops path) = some doc) :
    ∃ t, d.follow hops path = some t := by
  cases ht : d.follow hops path with
  | some t => exact ⟨t, rfl⟩
  | none =>
    rw [Disk.content, ht] at hdoc
    cases hdoc

theorem copy_safe {after : Json} (ht : d.follow hops path = some target)
    (hafter : ∃ before, docOf parse (d.content hops path) = some before ∧ e.edit before = .ok after)
    (hclear : Clear pid hops path nowMs d) (hn : d.node target ≠ none) :
    (attempt path (.copy target (backup target nowMs)) fun _ =>
      replace pid path target (some mode) (docText pretty after)).Safe (serve hops)
        (fun _ s => Whole parse pretty hops path nowMs e d s)
        (fun _ s r => Written parse pretty hops path nowMs e d s r) h d := by
  obtain ⟨hplain, hapart, hbak⟩ := hclear target ht
  have hbak := hbak hn
  have hready (v : Fate) : Ready hops pid path target d
      (serve hops (.copy target (backup target nowMs)) d v).2 := by
    constructor
    · exact copyFile_sameLinks
    · exact copyFile_content_ne ht fun b hb => (hbak b hb).1
    · exact hplain
    · exact copyFile_same.not.mpr hapart
  refine attempt_safe ⟨.refl, .inl rfl⟩ (fun v error hv => ?_) fun v r hv => ?_
  · exact (hready v).failed
  · refine replace_safe ht hafter (hready v) fun old ho => ?_
    have hend : d.follow hops target = some target := Disk.follow_again ht
    have hold : (serve hops (.copy target (backup target nowMs)) d v).2.content hops
        (backup target nowMs) = .ok old := by
      rw [← ho, Disk.content_eq ht, ← Disk.content_eq hend]
      exact copyFile_content hend (fun b hb => (hbak b hb).1) hv
    refine ⟨hold, ?_⟩
    obtain ⟨bak, hb⟩ := Disk.follow_of_content hold
    have hb' := hbak bak ((hready v).links.follow ▸ hb)
    exact ⟨bak, hb, copyFile_same.not.mpr hb'.1, copyFile_same.not.mpr hb'.2⟩

/-- Writing after the config was read and edited. -/
theorem writeDoc_safe {before after : Json}
    (hdoc : docOf parse (d.content hops path) = some before) (hedit : e.edit before = .ok after)
    (hclear : Clear pid hops path nowMs d) :
    (writeDoc pretty pid path after nowMs).Safe (serve hops)
      (fun h s => LinksSeen d h → Whole parse pretty hops path nowMs e d s)
      (fun h s r => LinksSeen d h → Written parse pretty hops path nowMs e d s r) h d := by
  have hwhole : Whole parse pretty hops path nowMs e d d := ⟨.refl, .inl rfl⟩
  refine Safe.bind (writeTarget_safe _ (.refl path) (fun _ _ => hwhole) fun h r hr => ?_)
  cases r with
  | error error => exact ⟨fun _ => hwhole, fun _ => rfl⟩
  | ok target =>
    by_cases hseen : LinksSeen d h
    swap
    · exact unseen_safe hseen
    obtain ⟨hreach, hnot⟩ := hr target rfl hseen
    have ht : d.follow hops path = some target := by
      obtain ⟨t, ht⟩ := docOf_follow hdoc
      rw [ht, hreach.eq hnot ht]
    refine ⟨fun _ => hwhole, fun v => ?_⟩
    have hrefl : Ready hops pid path target d d :=
      ⟨.refl, rfl, (hclear target ht).1, (hclear target ht).2.1⟩
    obtain ⟨text, hs⟩ | hs := serve_metadata hops target d v <;> rw [hs]
    · exact ⟨fun _ => hwhole, fun _ => rfl⟩
    cases hm : d.mode hops target with
    | ok mode =>
      have hn : d.node target ≠ none := Disk.node_of_mode (Disk.follow_again ht) hm
      exact seen_safe (copy_safe ht ⟨before, hdoc, hedit⟩ hclear hn)
    | error error =>
      cases error with
      | other text => exact ⟨fun _ => hwhole, fun _ => rfl⟩
      | notFound =>
        have hn : d.node target = none :=
          Disk.node_of_mode_notFound (Disk.follow_again ht) hm
        have hnone (old : ByteArray) : d.content hops path ≠ .ok old := by
          rw [Disk.content_eq ht, Disk.readAt, hn]
          simp
        have hstays (v : Fate) : (serve hops (.createDirAll target.dir) d v).2 = d := by
          cases v <;> rfl
        refine seen_safe (attempt_safe hwhole (fun v error _ => ?_) fun v r _ => ?_) <;>
          rw [hstays]
        · exact ⟨hwhole, rfl⟩
        · exact replace_safe ht ⟨before, hdoc, hedit⟩ hrefl fun old ho => absurd ho (hnone old)

/-- What holds when an edit ends. -/
def Ended (parse : String → Option Json) (pretty : Json → String) (hops : ℕ) (path : Path)
    (nowMs : ℕ) (e : Edit) (d s : Disk) : Except InstallError Outcome → Prop
  | .ok outcome => outcome = .unchanged ∧ s = d ∨
    outcome = e.changed ∧ Replaced parse pretty hops path nowMs e d s
  | .error _ => s.content hops path = d.content hops path

theorem apply_safe (hclear : Clear pid hops path nowMs d) :
    (apply parse pretty pid path nowMs e.changed e.edit).Safe (serve hops)
      (fun h s => LinksSeen d h → Whole parse pretty hops path nowMs e d s)
      (fun h s r => LinksSeen d h → Ended parse pretty hops path nowMs e d s r) h d := by
  have hwhole : Whole parse pretty hops path nowMs e d d := ⟨.refl, .inl rfl⟩
  refine Safe.bind (readDoc_safe (fun _ _ => hwhole) fun h r hr => ?_)
  cases r with
  | error error => exact ⟨fun _ => hwhole, fun _ => rfl⟩
  | ok before =>
    have hdoc := hr before rfl
    dsimp only
    cases hedit : e.edit before with
    | error what => exact ⟨fun _ => hwhole, fun _ => rfl⟩
    | ok after =>
      rw [writeChanged]
      split_ifs with hsame
      · exact ⟨fun _ => hwhole, fun _ => .inl ⟨rfl, rfl⟩⟩
      · refine Safe.bind ((writeDoc_safe hdoc hedit hclear).here_end.mono fun h s r hw => ?_)
        cases r with
        | error error => exact hw
        | ok _ => exact ⟨hw.1, fun hseen => .inr ⟨rfl, hw.2 hseen⟩⟩

theorem file_safe (parse : String → Option Json) (pretty : Json → String) (e : Edit)
    (h : List (Event ConfigAns)) (hclear : Clear pid hops path nowMs d) :
    (e.file parse pretty pid path nowMs).Safe (serve hops)
      (fun h s => LinksSeen d h → Whole parse pretty hops path nowMs e d s)
      (fun h s r => LinksSeen d h → Ended parse pretty hops path nowMs e d s r) h d := by
  have hwhole : Whole parse pretty hops path nowMs e d d := ⟨.refl, .inl rfl⟩
  cases e with
  | install events command => exact apply_safe hclear
  | uninstall =>
    refine ⟨fun _ => hwhole, fun v => ?_⟩
    have hs : (serve hops (.metadata path) d v).2 = d := by cases v <;> rfl
    rw [hs]
    cases (serve hops (.metadata path) d v).1 with
    | ok mode => exact apply_safe hclear
    | error error => exact ⟨fun _ => hwhole, fun _ => .inl ⟨rfl, rfl⟩⟩

/-- However the operations of an edit go, and wherever it is cut, the config is whole, if the
names it writes to are clear and each link it looks at is seen. -/
theorem edit_atomic (parse : String → Option Json) (pretty : Json → String) (pid hops : ℕ)
    (path : Path) (nowMs : ℕ) (e : Edit) (d : Disk) (fates : List Fate)
    (hclear : Clear pid hops path nowMs d)
    (hseen : LinksSeen d ((e.file parse pretty pid path nowMs).run (serve hops) d fates).events) :
    Atomic parse pretty hops path nowMs e d
      ((e.file parse pretty pid path nowMs).run (serve hops) d fates).state
      ((e.file parse pretty pid path nowMs).run (serve hops) d fates).result := by
  obtain ⟨hwhole, hend⟩ := (file_safe parse pretty e [] hclear).run fates
  rw [List.nil_append] at hwhole hend
  have hne : e.changed ≠ .unchanged := by cases e <;> nofun
  constructor
  · exact (hwhole hseen).1
  · exact (hwhole hseen).2
  · exact fun error hr => hend _ hr hseen
  · intro hr
    obtain ⟨-, hs⟩ | ⟨ho, -⟩ := hend _ hr hseen
    · exact hs
    · exact absurd ho.symm hne
  · intro hr
    obtain ⟨ho, -⟩ | ⟨-, h⟩ := hend _ hr hseen
    · exact absurd ho hne
    · exact h

end Safety

section Linked

/-- A config behind a link to an empty file. -/
def linked : Disk where
  home _ := 0
  nodes spot :=
    if spot = (0, "settings.json") then some (.link ⟨[], "real.json"⟩)
    else if spot = (0, "real.json") then some (.file 0) else none
  files _ := ⟨.empty, 0o600⟩
  next := 1
  fresh spot id h := by
    split_ifs at h <;> cases h
    exact Nat.one_pos

def linkedPath : Path := ⟨["/", "home", "u"], "settings.json"⟩

def linkedText : Json → String := fun _ => "\x7b\n  \"hooks\": \x7b\x7d\n\x7d"

def linkedRun (fates : List Fate) : Run ConfigAns Disk (Except InstallError Outcome) :=
  ((Edit.install [] "c").file (fun _ => none) linkedText 5 linkedPath 7).run (serve 40) linked fates

/-- An edit that goes through the link. -/
theorem edit_atomic_linked :
    let r := linkedRun (List.replicate 9 .works)
    Atomic (fun _ => none) linkedText 40 linkedPath 7 (.install [] "c") linked r.state r.result ∧
      r.result = some (.ok .installed) := by
  intro r
  have hclear : Clear 5 40 linkedPath 7 linked := by
    intro target ht
    obtain rfl : (⟨linkedPath.dir, "real.json"⟩ : Path) = target :=
      Option.some.inj ((by decide : linked.follow 40 linkedPath = _).symm.trans ht)
    have htmp : linked.node (temporary 5 ⟨linkedPath.dir, "real.json"⟩) = none := by decide
    refine ⟨fun ⟨dest, hl⟩ => (nomatch htmp.symm.trans hl), by decide, fun _ bak hb => ?_⟩
    obtain rfl : backup ⟨linkedPath.dir, "real.json"⟩ 7 = bak :=
      Option.some.inj ((by decide : linked.follow 40 _ = _).symm.trans hb)
    decide
  have hseen : LinksSeen linked r.events := by
    have hall : r.events.all (fun
        | ⟨.symlinkMetadata link, .error _⟩ => decide (linked.node link = none)
        | _ => true) = true := by decide +kernel
    intro link error hm
    have hnone := of_decide_eq_true (List.all_eq_true.mp hall _ hm)
    exact fun ⟨dest, hl⟩ => nomatch hnone.symm.trans hl
  exact ⟨edit_atomic _ _ _ _ _ _ _ _ _ hclear hseen, by decide +kernel⟩

/-- A link that cannot be looked at is replaced. -/
theorem not_edit_atomic : ¬∀ (parse : String → Option Json) (pretty : Json → String)
    (pid hops : ℕ) (path : Path) (nowMs : ℕ) (e : Edit) (d : Disk) (fates : List Fate),
    Atomic parse pretty hops path nowMs e d
      ((e.file parse pretty pid path nowMs).run (serve hops) d fates).state
      ((e.file parse pretty pid path nowMs).run (serve hops) d fates).result := by
  intro h
  have hlinks := (h (fun _ => none) linkedText 5 40 linkedPath 7 (.install [] "c") linked
    (.works :: .fails "EIO" :: List.replicate 7 .works)).links
  have hlink := (hlinks.link (0, "settings.json") ⟨[], "real.json"⟩).mpr (by decide)
  have hfile : (linkedRun (.works :: .fails "EIO" :: List.replicate 7 .works)).state.nodes
      (0, "settings.json") = some (.file 2) := by decide +kernel
  exact nomatch hfile.symm.trans hlink

end Linked

end MultiAi.Hooks
