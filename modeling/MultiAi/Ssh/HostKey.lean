import Mathlib.Logic.Relation
import MultiAi.Library.Utf8

/-! # Host keys

A host key is looked up in `known_hosts` files, line by line. How one line is parsed and how
a host name is hashed are left to the ssh library.
-/

namespace MultiAi

inductive Marker | certAuthority | revoked
  deriving DecidableEq

/-- The host field of an entry. -/
inductive HostPatterns where
  | hashedName (salt hash : List UInt8)
  | patterns (list : List String)

/-- What the library reads from one line; `κ` is the type of public keys, compared without
their comments. -/
structure Entry (κ : Type) where
  marker : Option Marker
  hostPatterns : HostPatterns
  publicKey : κ

/-- The ssh library: the entry of a line, the hash of a name under a salt and the algorithm
of a key. -/
structure SshLib (κ α : Type) where
  parse : String → Option (Entry κ)
  mac : List UInt8 → String → Option (List UInt8)
  algorithm : κ → α

/-- Result of looking a host key up in the known_hosts files. -/
inductive HostKeyStatus where
  | known
  | unknown
  | changed (file : String) (line : ℕ)
  | revoked (file : String) (line : ℕ)
  | unreadable (file : String) (error : String)

/-- What is found where a file should be. -/
inductive FileState where
  | missing
  | unreadable (error : String)
  | readable (bytes : List UInt8)

/-- The name OpenSSH records for `host:port`. -/
def hostName (host : String) (port : UInt16) : String :=
  let host := host.toLower
  if port = 22 then host else "[" ++ host ++ "]:" ++ toString port.toNat

/-- Glob match with `*` (any run) and `?` (one character). -/
def glob : List Char → List Char → Bool
  | [], text => text.isEmpty
  | '*' :: rest, text => text.tails.any (glob rest)
  | '?' :: rest, text => match text with
    | [] => false
    | _ :: text => glob rest text
  | c :: rest, text => match text with
    | [] => false
    | d :: text => c = d && glob rest text

/-- Whether a pattern is negated, and the pattern itself. -/
def stripNegation : List Char → Bool × List Char
  | '!' :: rest => (true, rest)
  | p => (false, p)

/-- Go through the patterns of a list; a negated one that matches ends the search. -/
def patternsMatch (text : List Char) (matched : Bool) : List String → Bool
  | [] => matched
  | p :: ps =>
    let (negated, p) := stripNegation p.toList
    if glob (p.map Char.toLower) text then
      if negated then false else patternsMatch text true ps
    else patternsMatch text matched ps

section Check

variable {κ α : Type} (lib : SshLib κ α)

def hashedMatches (salt hash : List UInt8) (name : String) : Bool :=
  match lib.mac salt name with
  | none => false
  | some tag => tag = hash

/-- Does an entry's host field apply to `name`? -/
def hostMatches (patterns : HostPatterns) (name : String) : Bool :=
  match patterns with
  | .hashedName salt hash => hashedMatches lib salt hash name
  | .patterns list => patternsMatch name.toList false list

/-- What one file says about a key for a name. -/
structure FileVerdict where
  known : Bool
  changed : Option ℕ
  revoked : Option ℕ

/-- The lines of a file, however it is encoded. -/
def fileLines (bytes : List UInt8) : List String :=
  (Lines.lines '\n' '\r' (Utf8.lossy bytes)).map String.ofList

variable [DecidableEq κ] [DecidableEq α]

/-- What a line adds to the verdict on its file. -/
def scanLine (name : String) (key : κ) (v : FileVerdict) (line : String × ℕ) :
    FileVerdict :=
  match lib.parse line.1 with
  | none => v
  | some entry =>
    if !hostMatches lib entry.hostPatterns name then v
    else
      let sameKey := entry.publicKey = key
      match entry.marker with
      | some .revoked =>
        if sameKey then { v with revoked := v.revoked.or (some (line.2 + 1)) } else v
      | some .certAuthority => v
      | none =>
        if sameKey then { v with known := true }
        else if lib.algorithm entry.publicKey = lib.algorithm key then
          { v with changed := v.changed.or (some (line.2 + 1)) }
        else v

def scan (name : String) (key : κ) (bytes : List UInt8) : FileVerdict :=
  (fileLines bytes).zipIdx.foldl (scanLine lib name key) ⟨false, none, none⟩

/-- The files that are left to look at, with what the earlier ones said. -/
def checkFiles (name : String) (key : κ) (known : Bool)
    (changed : Option (String × ℕ)) : List (String × FileState) → HostKeyStatus
  | [] =>
    match changed, known with
    | some (file, line), _ => .changed file line
    | none, true => .known
    | none, false => .unknown
  | (_, .missing) :: files => checkFiles name key known changed files
  | (file, .unreadable e) :: _ => .unreadable file e
  | (file, .readable bytes) :: files =>
    let v := scan lib name key bytes
    match v.revoked with
    | some line => .revoked file line
    | none =>
      checkFiles name key (known || v.known) (changed.or (v.changed.map (file, ·))) files

/-- Check a key for `host:port` in every file. -/
def check (files : List (String × FileState)) (host : String) (port : UInt16)
    (key : κ) : HostKeyStatus :=
  checkFiles lib (hostName host port) key false none files

end Check

theorem stripNegation_of_head {p : List Char} (h : p.head? ≠ some '!') :
    stripNegation p = (false, p) := by
  unfold stripNegation
  split
  · exact absurd rfl h
  · rfl

/-- The lines of a file are decoded on their own, whatever bytes they hold. -/
theorem fileLines_flatMap_append {ls : List (List UInt8)} (h : ∀ line ∈ ls, Utf8.newline ∉ line)
    (rest : List UInt8) :
    fileLines (ls.flatMap (Lines.terminate Utf8.newline) ++ rest) =
      (ls.map fun line => String.ofList (Lines.dropCr '\r' (Utf8.lossy line))) ++
        fileLines rest := by
  have hdecoded : ∀ line ∈ ls.map Utf8.lossy, '\n' ∉ line := by
    intro line hl
    obtain ⟨bytes, hb, rfl⟩ := List.mem_map.mp hl
    exact Utf8.newline_notMem_lossy (h bytes hb)
  rw [fileLines, Utf8.lossy_flatMap_append, Lines.lines_flatMap_append _ _ hdecoded,
    List.map_append, List.map_map, List.map_map, fileLines]
  rfl

theorem fileLines_flatMap {ls : List (List UInt8)} (h : ∀ line ∈ ls, Utf8.newline ∉ line) :
    fileLines (ls.flatMap (Lines.terminate Utf8.newline)) =
      ls.map fun line => String.ofList (Lines.dropCr '\r' (Utf8.lossy line)) := by
  have hall := fileLines_flatMap_append h []
  rwa [List.append_nil, show fileLines [] = [] from rfl, List.append_nil] at hall

/-- A list applies when some pattern matches and no negated pattern does. -/
theorem patternsMatch_iff {text : List Char} {matched : Bool} {ps : List String} :
    patternsMatch text matched ps = true ↔
      (matched = true ∨ ∃ p ∈ ps, p.toList.head? ≠ some '!' ∧
        glob (p.toList.map Char.toLower) text = true) ∧
      ∀ p ∈ ps, ∀ rest, p.toList = '!' :: rest → glob (rest.map Char.toLower) text = false := by
  induction ps generalizing matched with
  | nil => simp [patternsMatch]
  | cons p ps ih =>
    rw [patternsMatch.eq_def]
    by_cases hn : ∃ rest, p.toList = '!' :: rest
    · obtain ⟨rest, hp⟩ := hn
      simp only [hp, stripNegation, List.mem_cons, exists_eq_or_imp, forall_eq_or_imp]
      cases hg : glob (rest.map Char.toLower) text with
      | true => simp [hg]
      | false => simp [ih, hg]
    · have hp : p.toList.head? ≠ some '!' := by
        intro h
        obtain ⟨rest, hr⟩ := List.head?_eq_some_iff.mp h
        exact hn ⟨rest, hr⟩
      have hrest : (∀ rest, p.toList = '!' :: rest → glob (rest.map Char.toLower) text = false) =
          True :=
        eq_true fun rest hr => absurd ⟨rest, hr⟩ hn
      simp only [stripNegation_of_head hp, List.mem_cons, exists_eq_or_imp, forall_eq_or_imp]
      cases hg : glob (p.toList.map Char.toLower) text with
      | true => simp [ih, hp, hrest]
      | false => simp [ih, hrest]

section Decision

/-- What a check comes to. -/
inductive Decision | known | unknown | refuse
  deriving DecidableEq

def HostKeyStatus.decision : HostKeyStatus → Decision
  | .known => .known
  | .unknown => .unknown
  | .changed .. | .revoked .. | .unreadable .. => .refuse

/-- The lines that a check reads. -/
def FileState.lines : FileState → List String
  | .readable bytes => fileLines bytes
  | .missing | .unreadable _ => []

/-- Some line of some file satisfies `P`. -/
def AnyLine (files : List (String × FileState)) (P : String → Prop) : Prop :=
  ∃ f ∈ files, ∃ line ∈ f.2.lines, P line

/-- Every file that exists can be read. -/
def Readable (files : List (String × FileState)) : Prop :=
  ∀ f ∈ files, ∀ e, f.2 ≠ .unreadable e

variable {κ α : Type} (lib : SshLib κ α) (name : String) (key : κ)

/-- A line for the name with this marker, and a key that satisfies `P`. -/
def Matching (marker : Option Marker) (P : κ → Prop) (line : String) : Prop :=
  ∃ entry, lib.parse line = some entry ∧ hostMatches lib entry.hostPatterns name = true ∧
    entry.marker = marker ∧ P entry.publicKey

/-- An unmarked line with exactly this key. -/
def Holds (line : String) : Prop := Matching lib name none (· = key) line

/-- An unmarked line with a different key of the same algorithm. -/
def Differs (line : String) : Prop :=
  Matching lib name none (fun k => k ≠ key ∧ lib.algorithm k = lib.algorithm key) line

/-- A line that revokes this key. -/
def Revokes (line : String) : Prop := Matching lib name (some .revoked) (· = key) line

/-- A file that exists cannot be read, or some line changes or revokes the key. -/
def Refused (files : List (String × FileState)) : Prop :=
  ¬ Readable files ∨ AnyLine files (Differs lib name key) ∨ AnyLine files (Revokes lib name key)

theorem anyLine_cons {f : String × FileState} {files : List (String × FileState)}
    {P : String → Prop} :
    AnyLine (f :: files) P ↔ (∃ line ∈ f.2.lines, P line) ∨ AnyLine files P :=
  List.exists_mem_cons_iff ..

theorem refused_cons {f : String × FileState} {files : List (String × FileState)} :
    Refused lib name key (f :: files) ↔ (∃ e, f.2 = .unreadable e) ∨
      (∃ line ∈ f.2.lines, Differs lib name key line) ∨
      (∃ line ∈ f.2.lines, Revokes lib name key line) ∨ Refused lib name key files := by
  have hr : ¬ Readable (f :: files) ↔ (∃ e, f.2 = .unreadable e) ∨ ¬ Readable files := by
    simp only [Readable, List.forall_mem_cons, not_and_or, not_forall, not_not]
  simp only [Refused, hr, anyLine_cons, or_assoc, or_left_comm]

variable [DecidableEq κ] [DecidableEq α]

theorem scanLine_spec (v : FileVerdict) (line : String × ℕ) :
    ((scanLine lib name key v line).known = true ↔ v.known = true ∨ Holds lib name key line.1) ∧
      ((scanLine lib name key v line).changed.isSome ↔
        v.changed.isSome ∨ Differs lib name key line.1) ∧
      ((scanLine lib name key v line).revoked.isSome ↔
        v.revoked.isSome ∨ Revokes lib name key line.1) := by
  unfold scanLine Holds Differs Revokes Matching
  cases hp : lib.parse line.1 with
  | none => simp
  | some entry =>
    cases hm : hostMatches lib entry.hostPatterns name with
    | false => simp [hm]
    | true =>
      rcases entry with ⟨_ | _ | _, patterns, k⟩
      · by_cases hk : k = key
        · simp_all
        · by_cases ha : lib.algorithm k = lib.algorithm key <;> simp_all
      · simp_all
      · by_cases hk : k = key <;> simp_all

theorem scan_spec (bytes : List UInt8) :
    ((scan lib name key bytes).known = true ↔ ∃ line ∈ fileLines bytes, Holds lib name key line) ∧
      ((scan lib name key bytes).changed.isSome ↔
        ∃ line ∈ fileLines bytes, Differs lib name key line) ∧
      ((scan lib name key bytes).revoked.isSome ↔
        ∃ line ∈ fileLines bytes, Revokes lib name key line) := by
  have hfold : ∀ (lines : List String) (i : ℕ) (v : FileVerdict),
      let w := (lines.zipIdx i).foldl (scanLine lib name key) v
      (w.known = true ↔ v.known = true ∨ ∃ line ∈ lines, Holds lib name key line) ∧
        (w.changed.isSome ↔ v.changed.isSome ∨ ∃ line ∈ lines, Differs lib name key line) ∧
        (w.revoked.isSome ↔ v.revoked.isSome ∨ ∃ line ∈ lines, Revokes lib name key line) := by
    intro lines
    induction lines with
    | nil => simp
    | cons line lines ih =>
      intro i v
      obtain ⟨hk, hc, hr⟩ := scanLine_spec lib name key v (line, i)
      obtain ⟨hk', hc', hr'⟩ := ih (i + 1) (scanLine lib name key v (line, i))
      simp only [List.zipIdx_cons, List.foldl_cons, List.exists_mem_cons_iff, ← or_assoc]
      exact ⟨hk'.trans (or_congr_left hk), hc'.trans (or_congr_left hc),
        hr'.trans (or_congr_left hr)⟩
  simpa [scan] using hfold (fileLines bytes) 0 ⟨false, none, none⟩

theorem checkFiles_decision (known : Bool) (changed : Option (String × ℕ))
    (files : List (String × FileState)) :
    ((checkFiles lib name key known changed files).decision = .refuse ↔
        changed.isSome ∨ Refused lib name key files) ∧
      ((checkFiles lib name key known changed files).decision = .known ↔
        ¬ (changed.isSome ∨ Refused lib name key files) ∧
          (known = true ∨ AnyLine files (Holds lib name key))) := by
  induction files generalizing known changed with
  | nil =>
    have hr : ¬ Refused lib name key [] := by simp [Refused, Readable, AnyLine]
    have hh : ¬ AnyLine [] (Holds lib name key) := by simp [AnyLine]
    rw [or_iff_left hr, or_iff_left hh]
    cases changed <;> cases known <;> simp [checkFiles, HostKeyStatus.decision]
  | cons f files ih =>
    obtain ⟨file, _ | e | bytes⟩ := f
    · have hr : Refused lib name key ((file, .missing) :: files) ↔ Refused lib name key files := by
        simp [refused_cons, FileState.lines]
      have hh : AnyLine ((file, .missing) :: files) (Holds lib name key) ↔
          AnyLine files (Holds lib name key) := by
        simp [anyLine_cons, FileState.lines]
      rw [checkFiles, hr, hh]
      exact ih known changed
    · have hr : Refused lib name key ((file, .unreadable e) :: files) :=
        (refused_cons lib name key).mpr (.inl ⟨e, rfl⟩)
      simp [checkFiles, HostKeyStatus.decision, hr]
    · obtain ⟨hk, hc, hv⟩ := scan_spec lib name key bytes
      have hr : Refused lib name key ((file, .readable bytes) :: files) ↔
          (scan lib name key bytes).changed.isSome ∨
            (scan lib name key bytes).revoked.isSome ∨ Refused lib name key files := by
        simp [refused_cons, FileState.lines, hc, hv]
      have hh : AnyLine ((file, .readable bytes) :: files) (Holds lib name key) ↔
          (scan lib name key bytes).known = true ∨ AnyLine files (Holds lib name key) := by
        simp [anyLine_cons, FileState.lines, hk]
      rw [hr, hh, checkFiles]
      cases hrev : (scan lib name key bytes).revoked with
      | some line => simp [HostKeyStatus.decision]
      | none =>
        have hih := ih (known || (scan lib name key bytes).known)
          (changed.or ((scan lib name key bytes).changed.map (file, ·)))
        simpa [or_assoc] using hih

theorem decision_refuse_iff (files : List (String × FileState)) (host : String) (port : UInt16) :
    (check lib files host port key).decision = .refuse ↔
      Refused lib (hostName host port) key files := by
  have h := (checkFiles_decision lib (hostName host port) key false none files).1
  simpa only [check, Option.isSome_none, Bool.false_eq_true, false_or] using h

theorem decision_known_iff (files : List (String × FileState)) (host : String) (port : UInt16) :
    (check lib files host port key).decision = .known ↔
      ¬ Refused lib (hostName host port) key files ∧
        AnyLine files (Holds lib (hostName host port) key) := by
  have h := (checkFiles_decision lib (hostName host port) key false none files).2
  simpa only [check, Option.isSome_none, Bool.false_eq_true, false_or] using h

theorem decision_unknown_iff (files : List (String × FileState)) (host : String)
    (port : UInt16) :
    (check lib files host port key).decision = .unknown ↔
      ¬ Refused lib (hostName host port) key files ∧
        ¬ AnyLine files (Holds lib (hostName host port) key) := by
  have hr := decision_refuse_iff lib key files host port
  have hk := decision_known_iff lib key files host port
  cases hd : (check lib files host port key).decision with
  | known => simp_all
  | unknown => simp_all
  | refuse => simp_all

end Decision

section Edits

variable {κ α : Type} (lib : SshLib κ α) (name : String)

/-- A line that does not parse, one for a certificate authority, or one for other hosts. -/
def Irrelevant (line : String) : Prop :=
  ∀ entry, lib.parse line = some entry →
    entry.marker = some .certAuthority ∨ hostMatches lib entry.hostPatterns name = false

/-- The files in another order, the lines of a file in another order, or a line more that
does not matter. -/
inductive Edit : List (String × FileState) → List (String × FileState) → Prop
  | files {files files' : List (String × FileState)} : files.Perm files' → Edit files files'
  | lines {before after : List (String × FileState)} {file : String} {bytes bytes' : List UInt8} :
      (fileLines bytes).Perm (fileLines bytes') →
      Edit (before ++ (file, .readable bytes) :: after)
        (before ++ (file, .readable bytes') :: after)
  | insert {before after : List (String × FileState)} {file line : String}
      {bytes bytes' : List UInt8} {above below : List String} :
      Irrelevant lib name line → fileLines bytes = above ++ below →
      fileLines bytes' = above ++ line :: below →
      Edit (before ++ (file, .readable bytes) :: after)
        (before ++ (file, .readable bytes') :: after)

variable {lib name} {files files' : List (String × FileState)}

/-- The lines of a file, as bytes, in another order. -/
theorem Edit.of_perm {ls ls' : List (List UInt8)} (h : ∀ line ∈ ls, Utf8.newline ∉ line)
    (hp : ls.Perm ls') (before after : List (String × FileState)) (file : String) :
    Edit lib name
      (before ++ (file, .readable (ls.flatMap (Lines.terminate Utf8.newline))) :: after)
      (before ++ (file, .readable (ls'.flatMap (Lines.terminate Utf8.newline))) :: after) := by
  refine .lines ?_
  rw [fileLines_flatMap h, fileLines_flatMap fun line hl => h line (hp.mem_iff.mpr hl)]
  exact hp.map _

theorem Edit.readable (h : Edit lib name files files') : Readable files ↔ Readable files' := by
  cases h with
  | files h => simp only [Readable, h.mem_iff]
  | lines h => simp [Readable, or_imp, forall_and]
  | insert h => simp [Readable, or_imp, forall_and]

/-- What no irrelevant line satisfies. -/
theorem Edit.anyLine {P : String → Prop} (hP : ∀ line, Irrelevant lib name line → ¬ P line)
    (h : Edit lib name files files') : AnyLine files P ↔ AnyLine files' P := by
  cases h with
  | files h => simp [AnyLine, h.mem_iff]
  | lines h => simp [AnyLine, or_and_right, exists_or, FileState.lines, h.mem_iff]
  | @insert before after file line bytes bytes' above below hl hb hb' =>
    simp [AnyLine, or_and_right, exists_or, FileState.lines, hb, hb', hP line hl]

theorem Irrelevant.not_matching {line : String} (h : Irrelevant lib name line)
    {marker : Option Marker} (hm : marker ≠ some .certAuthority) {P : κ → Prop} :
    ¬ Matching lib name marker P line := by
  rintro ⟨entry, hp, hn, rfl, -⟩
  rcases h entry hp with hc | ho
  · exact hm hc
  · rw [ho] at hn
    cases hn

variable [DecidableEq κ] [DecidableEq α]

theorem Edit.decision {key : κ} {host : String} {port : UInt16}
    (h : Edit lib (hostName host port) files files') :
    (check lib files host port key).decision = (check lib files' host port key).decision := by
  have hr : Refused lib (hostName host port) key files ↔
      Refused lib (hostName host port) key files' := by
    have hd : AnyLine files (Differs lib (hostName host port) key) ↔
        AnyLine files' (Differs lib (hostName host port) key) :=
      h.anyLine fun _ hl => hl.not_matching (by simp)
    have hv : AnyLine files (Revokes lib (hostName host port) key) ↔
        AnyLine files' (Revokes lib (hostName host port) key) :=
      h.anyLine fun _ hl => hl.not_matching (by simp)
    rw [Refused, Refused, h.readable, hd, hv]
  have hh : AnyLine files (Holds lib (hostName host port) key) ↔
      AnyLine files' (Holds lib (hostName host port) key) :=
    h.anyLine fun _ hl => hl.not_matching (by simp)
  cases hd : (check lib files host port key).decision with
  | known =>
    rw [decision_known_iff, hr, hh, ← decision_known_iff] at hd
    exact hd.symm
  | unknown =>
    rw [decision_unknown_iff, hr, hh, ← decision_unknown_iff] at hd
    exact hd.symm
  | refuse =>
    rw [decision_refuse_iff, hr, ← decision_refuse_iff] at hd
    exact hd.symm

theorem eqvGen_decision {key : κ} {host : String} {port : UInt16}
    (h : Relation.EqvGen (Edit lib (hostName host port)) files files') :
    (check lib files' host port key).decision = (check lib files host port key).decision := by
  induction h with
  | rel _ _ h => exact h.decision.symm
  | refl => rfl
  | symm _ _ _ ih => exact ih.symm
  | trans _ _ _ _ _ ih ih' => exact ih'.trans ih

/-- A key as it is written in a file. -/
def sampleKey : String :=
  "ssh-ed25519 AAAAC3NzaC1lZDI1NTE5AAAAILM+rvN+ot98qgEN796jTiQfZfG1KaT0PtFDJ/XFSqti"

/-- A parser of lines with that key. -/
def sampleLib : SshLib String String where
  parse line := if line = "h " ++ sampleKey then some ⟨none, .patterns ["h"], sampleKey⟩ else none
  mac _ _ := none
  algorithm _ := "ssh-ed25519"

end Edits

end MultiAi
