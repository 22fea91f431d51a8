import Mathlib

/-! # Files behind symbolic links

A name in a directory leads to a file, to a link or to something else, and several names may
lead to one file. What neither makes nor removes a link leaves the end of each path where it
is; what is written to one file is read at the names of that file only.
-/

namespace MultiAi

/-- The names of a directory, `"/"` first if they are absolute, and a last name in it. -/
structure Path where
  dir : List String
  name : String
  deriving DecidableEq, Repr

namespace Path

def isRelative (p : Path) : Bool := p.dir.head? ≠ some "/"

/-- What a link stands for where it lies at a path. -/
def beside (link p : Path) : Path :=
  if link.isRelative then ⟨p.dir ++ link.dir, link.name⟩ else link

def suffixed (p : Path) (suffix : String) : Path := ⟨p.dir, p.name ++ suffix⟩

end Path

/-- What a name leads to; a file is known by its number. -/
inductive Node where
  | file (id : ℕ)
  | link (dest : Path)
  | other (mode : ℕ)
  deriving DecidableEq, Repr

structure File where
  bytes : ByteArray
  mode : ℕ
  deriving DecidableEq

inductive FileError where
  | notFound
  | other (text : String)
  deriving DecidableEq, Repr

/-- The names of all directories, and the files; `home` is the directory that names lead to. -/
structure Disk where
  home : List String → ℕ
  nodes : ℕ × String → Option Node
  files : ℕ → File
  next : ℕ
  fresh : ∀ spot id, nodes spot = some (.file id) → id < next

namespace Disk

/-- Where a path is. -/
def spot (d : Disk) (p : Path) : ℕ × String := (d.home p.dir, p.name)

def node (d : Disk) (p : Path) : Option Node := d.nodes (d.spot p)

def fileAt (d : Disk) (p : Path) : Option ℕ :=
  match d.node p with
  | some (.file id) => some id
  | _ => none

def IsLink (d : Disk) (p : Path) : Prop := ∃ dest, d.node p = some (.link dest)

/-- Two names of one place or of one file. -/
def Same (d : Disk) (p q : Path) : Prop :=
  d.spot p = d.spot q ∨ ∃ id, d.node p = some (.file id) ∧ d.node q = some (.file id)

instance (d : Disk) (p q : Path) : Decidable (d.Same p q) :=
  decidable_of_iff (d.spot p = d.spot q ∨ d.fileAt p ≠ none ∧ d.fileAt p = d.fileAt q) <| by
    refine or_congr Iff.rfl ?_
    rw [fileAt, fileAt]
    split <;> split <;> simp_all [eq_comm]

/-- The end of the links from a path, of which so many are followed. -/
def follow (d : Disk) : ℕ → Path → Option Path
  | 0, _ => none
  | hops + 1, p =>
    match d.node p with
    | some (.link dest) => d.follow hops (dest.beside p)
    | _ => some p

def readAt (d : Disk) (p : Path) : Except FileError ByteArray :=
  match d.node p with
  | some (.file id) => .ok (d.files id).bytes
  | some _ => .error (.other "not a file")
  | none => .error .notFound

/-- What is read at a path. -/
def content (d : Disk) (hops : ℕ) (p : Path) : Except FileError ByteArray :=
  match d.follow hops p with
  | some q => d.readAt q
  | none => .error (.other "too many levels of symbolic links")

/-- The mode of what a path leads to. -/
def mode (d : Disk) (hops : ℕ) (p : Path) : Except FileError ℕ :=
  match d.follow hops p with
  | none => .error (.other "too many levels of symbolic links")
  | some q =>
    match d.node q with
    | some (.file id) => .ok (d.files id).mode
    | some (.other mode) => .ok mode
    | some (.link _) | none => .error .notFound

/-- Overwrite the file at a name, or make one. -/
def write (d : Disk) (p : Path) (file : File) : Disk :=
  match d.node p with
  | some (.file id) => { d with files := Function.update d.files id file }
  | some _ => d
  | none =>
    { d with
      nodes := Function.update d.nodes (d.spot p) (some (.file d.next))
      files := Function.update d.files d.next file
      next := d.next + 1
      fresh := fun spot id h => by
        rw [Function.update_apply] at h
        split_ifs at h with hs
        · cases h
          omega
        · have := d.fresh spot id h
          omega }

/-- Give what is at one name to another; nothing happens between two names of one file. -/
def move (d : Disk) (p q : Path) : Disk :=
  if d.Same p q then d
  else
    { d with
      nodes := Function.update (Function.update d.nodes (d.spot q) (d.node p)) (d.spot p) none
      fresh := fun spot id h => by
        rw [Function.update_apply, Function.update_apply] at h
        split_ifs at h with hp hq
        · exact d.fresh _ id h
        · exact d.fresh spot id h }

/-- Following links from one path comes by another. -/
inductive Reaches (d : Disk) : Path → Path → Prop where
  | refl (p : Path) : Reaches d p p
  | link {p q dest : Path} : Reaches d p q → d.node q = some (.link dest) →
      Reaches d p (dest.beside q)

/-- Both have the same links. -/
structure SameLinks (d e : Disk) : Prop where
  home : e.home = d.home
  link : ∀ spot dest, e.nodes spot = some (.link dest) ↔ d.nodes spot = some (.link dest)

section

variable {d e f : Disk} {p q r x : Path} {hops : ℕ} {file : File}

theorem SameLinks.refl : d.SameLinks d := ⟨rfl, fun _ _ => Iff.rfl⟩

theorem SameLinks.trans (h : d.SameLinks e) (h' : e.SameLinks f) : d.SameLinks f :=
  ⟨h'.home.trans h.home, fun spot dest => (h'.link spot dest).trans (h.link spot dest)⟩

theorem SameLinks.spot (h : d.SameLinks e) : e.spot p = d.spot p := by
  rw [Disk.spot, Disk.spot, h.home]

theorem SameLinks.node_link (h : d.SameLinks e) {dest : Path} :
    e.node p = some (.link dest) ↔ d.node p = some (.link dest) := by
  rw [node, node, h.spot, h.link]

theorem SameLinks.isLink (h : d.SameLinks e) : e.IsLink p ↔ d.IsLink p :=
  exists_congr fun _ => h.node_link

theorem follow_link {dest : Path} (h : d.node p = some (.link dest)) :
    d.follow (hops + 1) p = d.follow hops (dest.beside p) := by
  rw [follow, h]

theorem follow_end (h : ¬d.IsLink p) : d.follow (hops + 1) p = some p := by
  rw [follow]
  split
  · exact absurd ⟨_, ‹_›⟩ h
  · rfl

theorem follow_not_link (h : d.follow hops p = some q) : ¬d.IsLink q := by
  induction hops generalizing p with
  | zero => cases h
  | succ hops ih =>
    by_cases hl : d.IsLink p
    · obtain ⟨dest, hl⟩ := hl
      exact ih (follow_link hl ▸ h)
    · rw [follow_end hl] at h
      cases h
      exact hl

/-- The links end where the first path is that is no link. -/
theorem Reaches.follow (h : d.Reaches p q) (hr : d.follow hops p = some r) :
    ∃ hops', d.follow hops' q = some r := by
  induction h with
  | refl => exact ⟨hops, hr⟩
  | link _ hl ih =>
    obtain ⟨hops', hq⟩ := ih
    cases hops' with
    | zero => cases hq
    | succ hops' => exact ⟨hops', follow_link hl ▸ hq⟩

theorem Reaches.eq (h : d.Reaches p q) (hq : ¬d.IsLink q) (hr : d.follow hops p = some r) :
    r = q := by
  obtain ⟨hops', hr⟩ := h.follow hr
  cases hops' with
  | zero => cases hr
  | succ hops' =>
    rw [follow_end hq] at hr
    exact (Option.some.inj hr).symm

/-- The same links lead to the same end. -/
theorem SameLinks.follow (h : d.SameLinks e) : e.follow hops p = d.follow hops p := by
  induction hops generalizing p with
  | zero => rfl
  | succ hops ih =>
    by_cases hl : d.IsLink p
    · obtain ⟨dest, hl⟩ := hl
      rw [follow_link hl, follow_link (h.node_link.mpr hl), ih]
    · rw [follow_end hl, follow_end (h.isLink.not.mpr hl)]

theorem content_eq (h : d.follow hops x = some p) : d.content hops x = d.readAt p := by
  rw [content, h]

theorem follow_of_content {bytes : ByteArray} (h : d.content hops x = .ok bytes) :
    ∃ p, d.follow hops x = some p := by
  cases hx : d.follow hops x with
  | some p => exact ⟨p, rfl⟩
  | none =>
    rw [content, hx] at h
    cases h

theorem follow_again (h : d.follow hops x = some p) : d.follow hops p = some p := by
  cases hops with
  | zero => cases h
  | succ hops => exact follow_end (follow_not_link h)

theorem node_of_mode {m : ℕ} (hx : d.follow hops x = some p) (h : d.mode hops x = .ok m) :
    d.node p ≠ none := by
  intro hn
  rw [mode, hx] at h
  simp [hn] at h

/-- Where there is no mode there is nothing to read. -/
theorem content_of_mode {error : FileError} (h : d.mode hops x = .error error)
    (bytes : ByteArray) : d.content hops x ≠ .ok bytes := by
  intro hc
  obtain ⟨p, hx⟩ := follow_of_content hc
  rw [content_eq hx, readAt] at hc
  split at hc
  · rename_i hn
    rw [mode, hx] at h
    simp [hn] at h
  · cases hc
  · cases hc

theorem node_of_mode_notFound (hx : d.follow hops x = some p)
    (h : d.mode hops x = .error .notFound) : d.node p = none := by
  rw [mode, hx] at h
  dsimp only at h
  split at h
  · cases h
  · cases h
  · rename_i dest hl
    exact absurd ⟨dest, hl⟩ (follow_not_link hx)
  · assumption

theorem Same.symm (h : d.Same p q) : d.Same q p := by
  obtain h | ⟨id, hp, hq⟩ := h
  · exact .inl h.symm
  · exact .inr ⟨id, hq, hp⟩

theorem Same.readAt (h : d.Same p q) : d.readAt p = d.readAt q := by
  obtain h | ⟨id, hp, hq⟩ := h
  · rw [Disk.readAt, Disk.readAt, node, node, h]
  · rw [Disk.readAt, Disk.readAt, hp, hq]

theorem write_spot : (d.write p file).spot q = d.spot q := by
  rw [write]
  split <;> rfl

theorem node_write : (d.write p file).node q =
    if d.node p = none ∧ d.spot q = d.spot p then some (.file d.next) else d.node q := by
  rw [node, write_spot, write]
  split
  · rename_i hp
    rw [if_neg (by simp [hp])]
    rfl
  · rename_i hp
    rw [if_neg (by simp [hp])]
    rfl
  · rename_i hp
    simp only [Function.update_apply, hp, true_and]
    rfl

theorem write_sameLinks : d.SameLinks (d.write p file) := by
  rw [write]
  split
  · exact ⟨rfl, fun _ _ => Iff.rfl⟩
  · exact .refl
  · refine ⟨rfl, fun spot dest => ?_⟩
    rename_i hp
    dsimp only
    rw [Function.update_apply]
    split_ifs with hs
    · rw [hs, show d.nodes (d.spot p) = none from hp]
      simp
    · rfl

/-- Writing makes no two names the same. -/
theorem same_write : (d.write p file).Same q r ↔ d.Same q r := by
  have hfresh (x : Path) : d.node x ≠ some (.file d.next) := fun h =>
    Nat.lt_irrefl _ (d.fresh _ _ h)
  rw [Same, Same, write_spot, write_spot, node_write, node_write]
  split_ifs with hq hr hr
  · exact iff_of_true (.inl (hq.2.trans hr.2.symm)) (.inl (hq.2.trans hr.2.symm))
  · have hne (x : Path) : d.spot x = d.spot p → d.node x = none := fun h => by
      rw [node, h]
      exact hq.1
    refine or_congr Iff.rfl (iff_of_false ?_ ?_)
    · rintro ⟨id, hid, hr⟩
      cases hid
      exact hfresh r hr
    · rintro ⟨id, hid, -⟩
      rw [hne q hq.2] at hid
      cases hid
  · have hne : d.node r = none := by
      rw [node, hr.2]
      exact hr.1
    refine or_congr Iff.rfl (iff_of_false ?_ ?_)
    · rintro ⟨id, hq, hid⟩
      cases hid
      exact hfresh q hq
    · rintro ⟨id, -, hid⟩
      rw [hne] at hid
      cases hid
  · rfl

theorem readAt_write_ne (h : ¬d.Same p q) : (d.write p file).readAt q = d.readAt q := by
  have hs : d.spot q ≠ d.spot p := fun hs => h (.inl hs.symm)
  rw [readAt, readAt, node_write, if_neg fun hc => hs hc.2]
  cases hq : d.node q with
  | none => rfl
  | some n =>
    cases n with
    | file id =>
      have hid : (d.write p file).files id = d.files id := by
        rw [write]
        split
        · rename_i hp
          refine Function.update_of_ne ?_ _ _
          rintro rfl
          exact h (.inr ⟨id, hp, hq⟩)
        · rfl
        · exact Function.update_of_ne (Nat.ne_of_lt (d.fresh _ _ hq)) _ _
      dsimp only
      rw [hid]
    | _ => rfl

theorem readAt_write (hl : ¬d.IsLink p) (ho : ∀ mode, d.node p ≠ some (.other mode)) :
    (d.write p file).readAt p = .ok file.bytes := by
  rw [readAt, node_write]
  cases hp : d.node p with
  | none => simp [write, hp]
  | some n =>
    cases n with
    | file id => simp [write, hp]
    | link dest => exact absurd ⟨dest, hp⟩ hl
    | other mode => exact absurd hp (ho mode)

theorem content_write_ne (hx : d.follow hops x = some q) (h : ¬d.Same p q) :
    (d.write p file).content hops x = d.content hops x := by
  rw [content_eq hx, content_eq (write_sameLinks.follow.trans hx), readAt_write_ne h]

theorem move_sameLinks (hp : ¬d.IsLink p) (hq : ¬d.IsLink q) : d.SameLinks (d.move p q) := by
  rw [move]
  split_ifs with hs
  · exact .refl
  · refine ⟨rfl, fun spot dest => ?_⟩
    dsimp only
    rw [Function.update_apply, Function.update_apply]
    split_ifs with hsp hsq
    · subst hsp
      exact iff_of_false nofun fun h => hp ⟨dest, h⟩
    · subst hsq
      exact iff_of_false (fun h => hp ⟨dest, h⟩) fun h => hq ⟨dest, h⟩
    · rfl

theorem readAt_move (h : ¬d.Same p q) : (d.move p q).readAt q = d.readAt p := by
  have hs : d.spot q ≠ d.spot p := fun hs => h (.inl hs.symm)
  have hn : (d.move p q).node q = d.node p := by
    rw [move, if_neg h]
    change Function.update _ _ _ (d.spot q) = _
    rw [Function.update_of_ne hs, Function.update_self]
  have hf : (d.move p q).files = d.files := by rw [move, if_neg h]
  rw [readAt, readAt, hn, hf]

theorem readAt_move_ne (hp : ¬d.Same r p) (hq : ¬d.Same r q) :
    (d.move p q).readAt r = d.readAt r := by
  by_cases h : d.Same p q
  · rw [move, if_pos h]
  have hn : (d.move p q).node r = d.node r := by
    rw [move, if_neg h]
    change Function.update _ _ _ (d.spot r) = _
    rw [Function.update_of_ne fun hs => hp (.inl hs), Function.update_of_ne fun hs => hq (.inl hs)]
    rfl
  have hf : (d.move p q).files = d.files := by rw [move, if_neg h]
  rw [readAt, readAt, hn, hf]

end

end Disk

end MultiAi
