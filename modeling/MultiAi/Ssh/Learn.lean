import Mathlib
import MultiAi.Probe.HookMap
import MultiAi.Ssh.Patterns

/-! # Learning a host key

A key that the user trusts is appended to a file as a line of its own. The file may be one
that is checked under another name, and the directories above it may have to be made.
-/

namespace MultiAi.Learn

/-- What a place in the file system holds. -/
inductive Node
  | missing
  | directory
  | file (bytes : List UInt8)
  | unreadable (error : String)
  deriving DecidableEq

/-- Where paths lead, which directories they go through on the way, and what is said of a
directory or a file where the other should be. -/
structure Layout where
  spot : String → ℕ
  through : String → List ℕ
  isDirectory : String
  notDirectory : String

abbrev Nodes := ℕ → Node

/-- What is found under a path; what is hidden cannot be seen to exist. -/
inductive Found
  | missing
  | hidden (error : String)
  | unreadable (error : String)
  | readable (bytes : List UInt8)
  deriving DecidableEq

/-- The first place on the way to a path that is no directory. -/
def barrier (layout : Layout) (nodes : Nodes) (path : String) : Option Node :=
  ((layout.through path).map nodes).find? (· ≠ .directory)

def look (layout : Layout) (nodes : Nodes) (path : String) : Found :=
  match barrier layout nodes path with
  | some .missing => .missing
  | some (.unreadable e) => .hidden e
  | some (.file _) | some .directory => .hidden layout.notDirectory
  | none =>
    match nodes (layout.spot path) with
    | .missing => .missing
    | .directory => .unreadable layout.isDirectory
    | .unreadable e => .unreadable e
    | .file bytes => .readable bytes

/-- What a check sees: it passes over what does not exist. -/
def Found.state : Found → FileState
  | .missing | .hidden _ => .missing
  | .unreadable e => .unreadable e
  | .readable bytes => .readable bytes

/-- What the file to learn to holds already. -/
def Found.existing : Found → Except String (List UInt8)
  | .missing => .ok []
  | .hidden e | .unreadable e => .error e
  | .readable bytes => .ok bytes

structure ConnectOptions where
  knownHosts : List String
  learnTo : String

/-- The files to check a key against: `knownHosts`, and `learnTo` if it is not one of them. -/
def filesToCheck (opts : ConnectOptions) : List String :=
  if opts.learnTo ∈ opts.knownHosts then opts.knownHosts else opts.knownHosts ++ [opts.learnTo]

/-- The files to check as they are. -/
def statesOf (layout : Layout) (nodes : Nodes) (opts : ConnectOptions) :
    List (String × FileState) :=
  (filesToCheck opts).map fun path => (path, (look layout nodes path).state)

/-- What goes wrong while a line is written: the making of a directory, the opening of the
file, or the writing after some of the bytes. -/
structure Faults where
  mkdir : ℕ → Option String
  opening : Option String
  writing : Option (ℕ × String)

section Write

variable (layout : Layout) (faults : Faults)

/-- Make the directories that are missing, and stop at what cannot be one. -/
def createDirAll : List ℕ → Nodes → Option String × Nodes
  | [], nodes => (none, nodes)
  | place :: places, nodes =>
    match nodes place with
    | .directory => createDirAll places nodes
    | .file _ => (some layout.notDirectory, nodes)
    | .unreadable e => (some e, nodes)
    | .missing =>
      match faults.mkdir place with
      | some e => (some e, nodes)
      | none => createDirAll places (Function.update nodes place .directory)

/-- Open a file to append to it, create it if it is missing, and write. -/
def append (file : String) (line : List UInt8) (nodes : Nodes) : Option String × Nodes :=
  let write (bytes : List UInt8) : Option String × Nodes :=
    let put (line : List UInt8) :=
      Function.update nodes (layout.spot file) (.file (bytes ++ line))
    match faults.opening, faults.writing with
    | some e, _ => (some e, nodes)
    | none, some (n, e) => (some e, put (line.take n))
    | none, none => (none, put line)
  match barrier layout nodes file, nodes (layout.spot file) with
  | some (.unreadable e), _ => (some e, nodes)
  | some _, _ => (some layout.notDirectory, nodes)
  | none, .directory => (some layout.isDirectory, nodes)
  | none, .unreadable e => (some e, nodes)
  | none, .missing => write []
  | none, .file bytes => write bytes

/-- Cut the white space at the end. -/
def trimEnd (text : String) : String :=
  String.ofList (text.toList.reverse.dropWhile HookMap.isWhiteSpace).reverse

/-- What is appended to `existing`. -/
def addition (existing : List UInt8) (name encoded : String) : String :=
  (if existing ≠ [] ∧ existing.getLast? ≠ some Utf8.newline then "\n" else "") ++
    (name ++ " " ++ trimEnd encoded ++ "\n")

variable {κ α : Type} [DecidableEq κ] [DecidableEq α] (lib : SshLib κ α)
  (encode : κ → Except String String)

/-- Append a key for `host:port` to a file, unless the file records exactly this key. -/
def learn (nodes : Nodes) (file host : String) (port : UInt16) (key : κ) :
    Except String Unit × Nodes :=
  let err (e : String) : Except String Unit := .error (file ++ ": " ++ e)
  match (look layout nodes file).existing with
  | .error e => (err e, nodes)
  | .ok existing =>
    let name := hostName host port
    if (scan lib name key existing).known then (.ok (), nodes)
    else
      match encode key with
      | .error e => (err e, nodes)
      | .ok encoded =>
        match createDirAll layout faults (layout.through file) nodes with
        | (some e, nodes) => (err e, nodes)
        | (none, nodes) =>
          match append layout faults file
            (Utf8.encode (addition existing name encoded).toList) nodes with
          | (some e, nodes) => (err e, nodes)
          | (none, nodes) => (.ok (), nodes)

end Write

section Lines

/-- The lines of a file as bytes, the last one with or without its end. -/
def byteLines (bytes : List UInt8) : List (List UInt8) :=
  (Lines.splitInclusive Utf8.newline bytes).map fun piece =>
    if piece.getLast? = some Utf8.newline then piece.dropLast else piece

theorem byteLines_flatMap_append {ls : List (List UInt8)} {rest : List UInt8}
    (hls : ∀ line ∈ ls, Utf8.newline ∉ line) (hrest : Utf8.newline ∉ rest) :
    byteLines (ls.flatMap (Lines.terminate Utf8.newline) ++ rest) =
      ls ++ if rest = [] then [] else [rest] := by
  rw [byteLines, Lines.splitInclusive_flatMap_append hls, Lines.splitInclusive_of_notMem hrest,
    List.map_append, List.map_map]
  congr 1
  · have hid : ∀ line ∈ ls, ((fun piece => if piece.getLast? = some Utf8.newline then
        piece.dropLast else piece) ∘ Lines.terminate Utf8.newline) line = id line := by
      intro line _
      simp [Lines.getLast?_terminate, Lines.dropLast_terminate]
    rw [List.map_congr_left hid, List.map_id]
  · have hlast : rest.getLast? ≠ some Utf8.newline := fun h => hrest (List.mem_of_getLast? h)
    split_ifs <;> simp [hlast]

theorem byteLines_flatMap {ls : List (List UInt8)} (hls : ∀ line ∈ ls, Utf8.newline ∉ line) :
    byteLines (ls.flatMap (Lines.terminate Utf8.newline)) = ls := by
  have h := byteLines_flatMap_append hls (@List.not_mem_nil _ Utf8.newline)
  simpa using h

/-- What is appended ends up on a line of its own. -/
theorem byteLines_addition {existing : List UInt8} {name encoded : String}
    (h : '\n' ∉ (name ++ " " ++ trimEnd encoded).toList) :
    byteLines (existing ++ Utf8.encode (addition existing name encoded).toList) =
      byteLines existing ++ [Utf8.encode (name ++ " " ++ trimEnd encoded).toList] := by
  obtain ⟨ls, rest, hls, hrest, rfl⟩ := Lines.exists_lines Utf8.newline existing
  generalize hbody : name ++ " " ++ trimEnd encoded = body at h
  have hline : Utf8.newline ∉ Utf8.encode body.toList := Utf8.newline_notMem_encode h
  rw [byteLines_flatMap_append hls hrest, addition, hbody]
  by_cases hr : rest = []
  · subst hr
    have hend : ¬ (ls.flatMap (Lines.terminate Utf8.newline) ++ [] ≠ [] ∧
        (ls.flatMap (Lines.terminate Utf8.newline) ++ []).getLast? ≠ some Utf8.newline) := by
      cases ls using List.reverseRecOn with
      | nil => simp
      | append_singleton ls line => simp [Lines.terminate]
    have hbytes : ls.flatMap (Lines.terminate Utf8.newline) ++ [] ++
        Utf8.encode ("" ++ (body ++ "\n")).toList =
          (ls ++ [Utf8.encode body.toList]).flatMap (Lines.terminate Utf8.newline) := by
      simp [Lines.terminate, Utf8.encode_append, Utf8.encode_newline]
    have hall : ∀ line ∈ ls ++ [Utf8.encode body.toList], Utf8.newline ∉ line := by
      simpa [or_imp, forall_and] using ⟨hls, hline⟩
    rw [if_neg hend, hbytes, byteLines_flatMap hall, if_pos rfl, List.append_nil]
  · have hend : ls.flatMap (Lines.terminate Utf8.newline) ++ rest ≠ [] ∧
        (ls.flatMap (Lines.terminate Utf8.newline) ++ rest).getLast? ≠ some Utf8.newline := by
      rw [List.getLast?_append_of_ne_nil _ hr]
      exact ⟨by simp [hr], fun h => hrest (List.mem_of_getLast? h)⟩
    have hbytes : ls.flatMap (Lines.terminate Utf8.newline) ++ rest ++
        Utf8.encode ("\n" ++ (body ++ "\n")).toList =
          (ls ++ [rest, Utf8.encode body.toList]).flatMap (Lines.terminate Utf8.newline) := by
      have hnl : Utf8.encode ('\n' :: (body.toList ++ ['\n'])) =
          Utf8.newline :: Utf8.encode (body.toList ++ ['\n']) := rfl
      simp [Lines.terminate, Utf8.encode_append, Utf8.encode_newline, hnl]
    have hall : ∀ line ∈ ls ++ [rest, Utf8.encode body.toList], Utf8.newline ∉ line := by
      simpa [or_imp, forall_and] using ⟨hls, hrest, hline⟩
    rw [if_pos hend, hbytes, byteLines_flatMap hall, if_neg hr, List.append_assoc]
    rfl

variable {κ α : Type} {lib : SshLib κ α}

theorem parse_dropCr (hcr : ∀ line, lib.parse (line ++ "\r") = lib.parse line)
    (line : List Char) :
    lib.parse (String.ofList (Lines.dropCr '\r' line)) = lib.parse (String.ofList line) := by
  rw [Lines.dropCr]
  split_ifs with h
  · have hline : String.ofList line.dropLast ++ "\r" = String.ofList line := by
      rw [← List.dropLast_append_getLast? '\r' h, String.ofList_append, List.dropLast_concat]
    rw [← hline, hcr]
  · rfl

/-- What the library reads from a file is read from its lines as bytes. -/
theorem parse_fileLines (hcr : ∀ line, lib.parse (line ++ "\r") = lib.parse line)
    (bytes : List UInt8) :
    (fileLines bytes).map lib.parse =
      (byteLines bytes).map fun line => lib.parse (String.ofList (Utf8.lossy line)) := by
  obtain ⟨ls, rest, hls, hrest, rfl⟩ := Lines.exists_lines Utf8.newline bytes
  rw [fileLines_flatMap_append hls, byteLines_flatMap_append hls hrest, List.map_append,
    List.map_append, List.map_map]
  congr 1
  · exact List.map_congr_left fun line _ => parse_dropCr hcr _
  · have hlossy : '\n' ∉ Utf8.lossy rest := Utf8.newline_notMem_lossy hrest
    split_ifs with h
    · rw [h]
      rfl
    · have hlast : (Utf8.lossy rest).getLast? ≠ some '\n' :=
        fun h => hlossy (List.mem_of_getLast? h)
      rw [fileLines, Lines.lines, Lines.splitInclusive_of_notMem hlossy,
        if_neg (Utf8.lossy_ne_nil h)]
      simp [Lines.chomp, hlast]

end Lines

section Reading

variable {κ α : Type} {lib : SshLib κ α} {name : String} {key : κ} {line : String}

/-- A line more that the library reads like `line`, in a file that may be new. -/
inductive Grows (lib : SshLib κ α) (line : String) : FileState → FileState → Prop
  | same (s : FileState) : Grows lib line s s
  | written {s : FileState} {bytes : List UInt8} (hs : ∀ e, s ≠ .unreadable e)
      (hlines : (fileLines bytes).map lib.parse = s.lines.map lib.parse ++ [lib.parse line]) :
      Grows lib line s (.readable bytes)

/-- What a line comes to depends on what the library reads from it. -/
theorem exists_matching_iff {marker : Option Marker} {P : κ → Prop} {lines : List String} :
    (∃ l ∈ lines, Matching lib name marker P l) ↔ ∃ entry, some entry ∈ lines.map lib.parse ∧
      hostMatches lib entry.hostPatterns name = true ∧ entry.marker = marker ∧
        P entry.publicKey := by
  constructor
  · rintro ⟨l, hl, entry, hp, h⟩
    exact ⟨entry, List.mem_map.mpr ⟨l, hl, hp⟩, h⟩
  · rintro ⟨entry, he, h⟩
    obtain ⟨l, hl, hp⟩ := List.mem_map.mp he
    exact ⟨l, hl, entry, hp, h⟩

theorem Grows.unreadable {s : FileState} {e : String} (h : Grows lib line s (.unreadable e)) :
    s = .unreadable e := by
  cases h
  rfl

theorem Grows.matching {marker : Option Marker} {P : κ → Prop} {s s' : FileState}
    (h : Grows lib line s s') (hline : ¬ Matching lib name marker P line)
    (hm : ∃ l ∈ s'.lines, Matching lib name marker P l) :
    ∃ l ∈ s.lines, Matching lib name marker P l := by
  cases h with
  | same => exact hm
  | @written bytes hs hlines =>
    obtain ⟨entry, he, h⟩ := exists_matching_iff.mp hm
    rw [FileState.lines, hlines, List.mem_append] at he
    rcases he with he | he
    · exact exists_matching_iff.mpr ⟨entry, he, h⟩
    · exact absurd ⟨entry, (List.mem_singleton.mp he).symm, h⟩ hline

variable [DecidableEq κ] [DecidableEq α]

theorem scanLine_congr {v : FileVerdict} {l l' : String × ℕ} (h : lib.parse l.1 = lib.parse l'.1)
    (hn : l.2 = l'.2) : scanLine lib name key v l = scanLine lib name key v l' := by
  simp only [scanLine, h, hn]

theorem foldl_scanLine_congr {lines lines' : List String}
    (h : lines.map lib.parse = lines'.map lib.parse) (i : ℕ) (v : FileVerdict) :
    (lines.zipIdx i).foldl (scanLine lib name key) v =
      (lines'.zipIdx i).foldl (scanLine lib name key) v := by
  induction lines generalizing lines' i v with
  | nil =>
    rw [List.map_eq_nil_iff.mp h.symm]
  | cons l lines ih =>
    obtain ⟨l', rest, rfl, hl, hrest⟩ := List.map_eq_cons_iff.mp h.symm
    have hstep : scanLine lib name key v (l, i) = scanLine lib name key v (l', i) :=
      scanLine_congr hl.symm rfl
    simp only [List.zipIdx_cons, List.foldl_cons, hstep]
    exact ih hrest.symm _ _

/-- A line that does not matter for a name changes nothing, whatever stands above it. -/
theorem scanLine_irrelevant (h : Irrelevant lib name line) (v : FileVerdict) (i : ℕ) :
    scanLine lib name key v (line, i) = v := by
  rw [scanLine]
  cases hp : lib.parse line with
  | none => rfl
  | some entry =>
    cases hm : hostMatches lib entry.hostPatterns name with
    | false => simp [hm]
    | true =>
      rcases h entry hp with hc | ho
      · simp [hm, hc]
      · rw [ho] at hm
        cases hm

theorem scan_written {lines : List String} {bytes : List UInt8} (h : Irrelevant lib name line)
    (hlines : (fileLines bytes).map lib.parse = lines.map lib.parse ++ [lib.parse line]) :
    scan lib name key bytes = lines.zipIdx.foldl (scanLine lib name key) ⟨false, none, none⟩ := by
  have hmap : (fileLines bytes).map lib.parse = (lines ++ [line]).map lib.parse := by
    rw [hlines, List.map_append]
    rfl
  rw [scan, foldl_scanLine_congr hmap, List.zipIdx_append, List.foldl_append]
  exact scanLine_irrelevant h _ _

/-- The verdict on a name does not change with a line that does not matter for it. -/
theorem checkFiles_grows {files : List String} {s s' : String → FileState}
    (hgrows : ∀ path ∈ files, Grows lib line (s path) (s' path)) (h : Irrelevant lib name line)
    (known : Bool) (changed : Option (String × ℕ)) :
    MultiAi.checkFiles lib name key known changed (files.map fun path => (path, s' path)) =
      MultiAi.checkFiles lib name key known changed (files.map fun path => (path, s path)) := by
  induction files generalizing known changed with
  | nil => rfl
  | cons path files ih =>
    have hrest := ih fun p hp => hgrows p (List.mem_cons_of_mem _ hp)
    rw [List.map_cons, List.map_cons]
    generalize hs : s path = before
    generalize hs' : s' path = after
    have hg : Grows lib line before after := hs ▸ hs' ▸ hgrows path List.mem_cons_self
    cases hg with
    | same =>
      cases before with
      | missing => exact hrest known changed
      | unreadable e => rfl
      | readable bytes =>
        simp only [MultiAi.checkFiles]
        split
        · rfl
        · exact hrest _ _
    | @written bytes hne hlines =>
      have hscan : scan lib name key bytes = _ := scan_written h hlines
      cases before with
      | unreadable e => exact absurd rfl (hne e)
      | missing =>
        rw [MultiAi.checkFiles, MultiAi.checkFiles, hscan]
        simpa [FileState.lines] using hrest known changed
      | readable old =>
        have hold : scan lib name key bytes = scan lib name key old := hscan
        simp only [MultiAi.checkFiles, hold]
        split
        · rfl
        · exact hrest _ _

end Reading

section Names

/-- A host without a blank and without what means something in a `known_hosts` file. -/
def Plain (host : String) : Prop :=
  ∀ c ∈ host.toList, HookMap.isWhiteSpace c = false ∧
    c ∉ [',', '*', '?', '!', '#', '|', '@', '[']

instance (host : String) : Decidable (Plain host) := List.decidableBAll _ host.toList

/-- A character that stands for itself in a pattern. -/
structure Literal (c : Char) : Prop where
  lower : c.toLower = c
  star : c ≠ '*'
  mark : c ≠ '?'
  bang : c ≠ '!'
  newline : c ≠ '\n'

theorem literal_toLower {c : Char} (hblank : HookMap.isWhiteSpace c = false)
    (hmeta : c ∉ [',', '*', '?', '!', '#', '|', '@', '[']) : Literal c.toLower := by
  rcases Patterns.toLower_cases c with h | h
  · rw [h]
    constructor
    · exact h
    all_goals
      rintro rfl
      revert hblank hmeta
      decide
  · constructor
    · exact Patterns.toLower_of_isLower h
    all_goals
      intro hc
      rw [hc] at h
      revert h
      decide

theorem literal_of_isDigit {c : Char} (h : c.isDigit = true) : Literal c := by
  constructor
  · exact Patterns.toLower_of_isDigit h
  all_goals
    rintro rfl
    revert h
    decide

/-- The name of a plain host is a pattern for nothing but itself. -/
theorem literal_hostName {host : String} (h : Plain host) (port : UInt16) :
    ∀ c ∈ (hostName host port).toList, Literal c := by
  have hhost : ∀ c ∈ host.toLower.toList, Literal c := by
    intro c hc
    rw [String.toLower, String.toList_map] at hc
    obtain ⟨d, hd, rfl⟩ := List.mem_map.mp hc
    exact literal_toLower (h d hd).1 (h d hd).2
  intro c hc
  rw [hostName] at hc
  split_ifs at hc
  · exact hhost c hc
  · simp only [String.toList_append, List.mem_append] at hc
    rcases hc with ((hc | hc) | hc) | hc
    · rw [List.mem_singleton.mp hc]
      constructor <;> decide
    · exact hhost c hc
    · rcases List.mem_pair.mp hc with rfl | rfl <;> constructor <;> decide
    · exact literal_of_isDigit (Patterns.isDigit_of_mem_toString hc)

theorem glob_literal {pattern : List Char} (h : ∀ c ∈ pattern, Literal c) (text : List Char) :
    glob pattern text = true ↔ pattern = text := by
  rw [Patterns.glob_iff, Patterns.globs_iff_eq (fun hm => (h _ hm).star rfl)
    (fun hm => (h _ hm).mark rfl), eq_comm]

/-- The pattern of a plain host applies to its own name only. -/
theorem patternsMatch_literal {name : String} (h : ∀ c ∈ name.toList, Literal c)
    (other : String) : patternsMatch other.toList false [name] = true ↔ other = name := by
  have hbang : ∀ rest, name.toList ≠ '!' :: rest := by
    intro rest hr
    exact (h '!' (hr ▸ List.mem_cons_self)).bang rfl
  have hhead : name.toList.head? ≠ some '!' := by
    intro hr
    obtain ⟨rest, hr⟩ := List.head?_eq_some_iff.mp hr
    exact hbang rest hr
  have hlower : name.toList.map Char.toLower = name.toList := by
    rw [List.map_congr_left fun c hc => (h c hc).lower, List.map_id']
  simp only [patternsMatch_iff, Bool.false_eq_true, false_or, List.mem_singleton,
    exists_eq_left, forall_eq, hlower, glob_literal h]
  constructor
  · rintro ⟨⟨-, hn⟩, -⟩
    exact (String.toList_inj.mp hn).symm
  · rintro rfl
    exact ⟨⟨hhead, rfl⟩, fun rest hr => absurd hr (hbang rest)⟩

end Names

section Places

variable {layout : Layout} {faults : Faults} {nodes made after : Nodes} {path file : String}

theorem createDirAll_of_ne_missing (layout : Layout) (faults : Faults) (places : List ℕ)
    {place : ℕ} (h : nodes place ≠ .missing) :
    (createDirAll layout faults places nodes).2 place = nodes place := by
  induction places generalizing nodes with
  | nil => rfl
  | cons p places ih =>
    rw [createDirAll]
    split
    · exact ih h
    · rfl
    · rfl
    · rename_i hp
      have hne : place ≠ p := by
        rintro rfl
        exact h hp
      split
      · rfl
      · have hupdate : Function.update nodes p .directory place = nodes place :=
          Function.update_of_ne hne _ _
        rw [ih (by rwa [hupdate]), hupdate]

theorem find?_cons_eq (node : Node) (rest : List Node) :
    (node :: rest).find? (· ≠ .directory) =
      if node = .directory then rest.find? (· ≠ .directory) else some node := by
  by_cases h : node = .directory <;> simp [h]

/-- What is there stays in the way, and a way without obstacles stays clear. -/
theorem barrier_made (hmade : ∀ place, nodes place ≠ .missing → made place = nodes place)
    (h : barrier layout nodes path ≠ some .missing) :
    barrier layout made path = barrier layout nodes path := by
  unfold barrier at h ⊢
  generalize layout.through path = places at h ⊢
  induction places with
  | nil => rfl
  | cons place places ih =>
    rw [List.map_cons] at h
    rw [List.map_cons, List.map_cons]
    by_cases hd : nodes place = .directory
    · have hd' : made place = .directory := by
        rw [hmade place (by rw [hd]; nofun), hd]
      rw [find?_cons_eq, if_pos hd] at h
      rw [find?_cons_eq, find?_cons_eq, if_pos hd, if_pos hd']
      exact ih h
    · rw [find?_cons_eq, if_neg hd] at h
      have hm : made place = nodes place := hmade place fun hm => h (congrArg some hm)
      rw [find?_cons_eq, find?_cons_eq, hm, if_neg hd, if_neg hd]

/-- Making directories does not change what was found. -/
theorem look_made (hmade : ∀ place, nodes place ≠ .missing → made place = nodes place)
    (h : look layout nodes path ≠ .missing) : look layout made path = look layout nodes path := by
  have hbarrier : barrier layout nodes path ≠ some .missing := by
    intro hb
    rw [look, hb] at h
    exact h rfl
  unfold look at h ⊢
  rw [barrier_made hmade hbarrier]
  cases hb : barrier layout nodes path with
  | some node => cases node <;> rfl
  | none =>
    have hspot : nodes (layout.spot path) ≠ .missing := by
      intro hs
      simp [hb, hs] at h
    rw [hmade _ hspot]

theorem append_ok {line : List UInt8} (h : append layout faults file line made = (none, after)) :
    barrier layout made file = none ∧ ∃ bytes,
      (made (layout.spot file) = .missing ∧ bytes = [] ∨ made (layout.spot file) = .file bytes) ∧
        after = Function.update made (layout.spot file) (.file (bytes ++ line)) := by
  rw [append] at h
  cases hb : barrier layout made file with
  | some node => cases node <;> simp [hb] at h
  | none =>
    cases hs : made (layout.spot file) with
    | directory => simp [hb, hs] at h
    | unreadable e => simp [hb, hs] at h
    | missing =>
      cases ho : faults.opening <;> cases hw : faults.writing <;> simp [hb, hs, ho, hw] at h
      exact ⟨rfl, [], .inl ⟨rfl, rfl⟩, h.symm⟩
    | file bytes =>
      cases ho : faults.opening <;> cases hw : faults.writing <;> simp [hb, hs, ho, hw] at h
      exact ⟨rfl, bytes, .inr rfl, h.symm⟩

/-- A file that is written is in nobody's way who was not stopped there before. -/
theorem barrier_update (layout : Layout) (path : String) {place : ℕ} {bytes : List UInt8}
    (hplace : made place ≠ .directory) :
    barrier layout (Function.update made place (.file bytes)) path = barrier layout made path ∨
      barrier layout (Function.update made place (.file bytes)) path = some (.file bytes) ∧
        barrier layout made path = some (made place) := by
  unfold barrier
  induction layout.through path with
  | nil => exact .inl rfl
  | cons q places ih =>
    rw [List.map_cons, List.map_cons]
    by_cases hq : q = place
    · subst hq
      rw [find?_cons_eq, find?_cons_eq, Function.update_self, if_neg nofun, if_neg hplace]
      exact .inr ⟨rfl, rfl⟩
    · have hsame : Function.update made place (.file bytes) q = made q :=
        Function.update_of_ne hq _ _
      rw [find?_cons_eq, find?_cons_eq, hsame]
      split_ifs
      · exact ih
      · exact .inl rfl

end Places

section Learned

variable {κ α : Type} {layout : Layout} {faults : Faults} {lib : SshLib κ α}
  {encode : κ → Except String String} {nodes made after : Nodes}
  {file host name encoded line : String} {port : UInt16} {key : κ} {existing : List UInt8}

theorem parse_written (existing : List UInt8)
    (hcr : ∀ line, lib.parse (line ++ "\r") = lib.parse line)
    (h : '\n' ∉ (name ++ " " ++ trimEnd encoded).toList) :
    (fileLines (existing ++ Utf8.encode (addition existing name encoded).toList)).map lib.parse =
      (fileLines existing).map lib.parse ++ [lib.parse (name ++ " " ++ trimEnd encoded)] := by
  rw [parse_fileLines hcr, parse_fileLines hcr, byteLines_addition h, List.map_append,
    List.map_singleton, Utf8.lossy_encode, String.ofList_toList]

theorem exists_line_written (existing : List UInt8)
    (hcr : ∀ line, lib.parse (line ++ "\r") = lib.parse line)
    (h : '\n' ∉ (name ++ " " ++ trimEnd encoded).toList) :
    ∃ l ∈ fileLines (existing ++ Utf8.encode (addition existing name encoded).toList),
      lib.parse l = lib.parse (name ++ " " ++ trimEnd encoded) := by
  apply List.mem_map.mp
  rw [parse_written existing hcr h]
  exact List.mem_append_right _ List.mem_cons_self

/-- What was found of the file when it is opened is what it holds. -/
theorem existing_eq {bytes : List UInt8} (hb : barrier layout made file = none)
    (hspot : made (layout.spot file) = .missing ∧ bytes = [] ∨
      made (layout.spot file) = .file bytes)
    (h : (look layout made file).existing = .ok existing) : existing = bytes := by
  rw [look, hb] at h
  rcases hspot with ⟨hs, rfl⟩ | hs <;> rw [hs] at h <;> cases h <;> rfl

/-- Whatever path leads to the file, it holds one line more; other paths show what they did. -/
theorem grows_append (hcr : ∀ line, lib.parse (line ++ "\r") = lib.parse line)
    (h : '\n' ∉ (name ++ " " ++ trimEnd encoded).toList)
    (hexisting : (look layout made file).existing = .ok existing)
    (happend : append layout faults file
      (Utf8.encode (addition existing name encoded).toList) made = (none, after)) (path : String) :
    Grows lib (name ++ " " ++ trimEnd encoded) (look layout made path).state
      (look layout after path).state := by
  obtain ⟨hb, bytes, hspot, rfl⟩ := append_ok happend
  obtain rfl : existing = bytes := existing_eq hb hspot hexisting
  have hplace : made (layout.spot file) ≠ .directory := by
    rcases hspot with ⟨hs, -⟩ | hs <;> rw [hs] <;> nofun
  have hwritten := parse_written existing hcr h
  rcases barrier_update layout path hplace with heq | ⟨hnew, hold⟩
  · unfold look
    rw [heq]
    cases hbar : barrier layout made path with
    | some node => cases node <;> exact .same _
    | none =>
      by_cases hs : layout.spot path = layout.spot file
      · rw [hs, Function.update_self]
        rcases hspot with ⟨hm, rfl⟩ | hm
        · rw [hm]
          exact .written nofun hwritten
        · rw [hm]
          exact .written nofun hwritten
      · rw [Function.update_of_ne hs]
        exact .same _
  · unfold look
    rw [hnew, hold]
    rcases hspot with ⟨hm, -⟩ | hm <;> rw [hm] <;> exact .same _

/-- The file itself holds the line. -/
theorem look_append (happend : append layout faults file
      (Utf8.encode (addition existing name encoded).toList) made = (none, after))
    (hexisting : (look layout made file).existing = .ok existing) :
    look layout after file =
      .readable (existing ++ Utf8.encode (addition existing name encoded).toList) := by
  obtain ⟨hb, bytes, hspot, rfl⟩ := append_ok happend
  obtain rfl : existing = bytes := existing_eq hb hspot hexisting
  have hplace : made (layout.spot file) ≠ .directory := by
    rcases hspot with ⟨hs, -⟩ | hs <;> rw [hs] <;> nofun
  rcases barrier_update layout file hplace with heq | ⟨-, hold⟩
  · rw [look, heq, hb, Function.update_self]
  · rw [hb] at hold
    cases hold

variable [DecidableEq κ] [DecidableEq α]

theorem learn_ok (h : (learn layout faults lib encode nodes file host port key).1 = .ok ()) :
    ∃ existing, (look layout nodes file).existing = .ok existing ∧
      ((scan lib (hostName host port) key existing).known = true ∧
          (learn layout faults lib encode nodes file host port key).2 = nodes ∨
        ∃ encoded made, encode key = .ok encoded ∧
          createDirAll layout faults (layout.through file) nodes = (none, made) ∧
          append layout faults file
              (Utf8.encode (addition existing (hostName host port) encoded).toList) made =
            (none, (learn layout faults lib encode nodes file host port key).2)) := by
  unfold learn at h ⊢
  cases hl : (look layout nodes file).existing with
  | error e => simp [hl] at h
  | ok existing =>
    refine ⟨existing, rfl, ?_⟩
    simp only [hl] at h ⊢
    cases hk : (scan lib (hostName host port) key existing).known with
    | true => exact .inl ⟨rfl, by simp⟩
    | false =>
      simp only [hk, Bool.false_eq_true, if_false] at h ⊢
      cases he : encode key with
      | error e => simp [he] at h
      | ok encoded =>
        simp only [he] at h ⊢
        rcases hm : createDirAll layout faults (layout.through file) nodes with ⟨_ | e, made⟩
        · simp only [hm] at h ⊢
          rcases ha : append layout faults file
            (Utf8.encode (addition existing (hostName host port) encoded).toList) made
            with ⟨_ | e, after⟩
          · exact .inr ⟨encoded, made, rfl, rfl, ha⟩
          · simp [ha] at h
        · simp [hm] at h

end Learned

section Effect

variable {κ α : Type} {lib : SshLib κ α} {name line : String} {key : κ} {files : List String}
  {s s' : String → FileState}

theorem holds_line (hparse : lib.parse line = some ⟨none, .patterns [name], key⟩)
    (hname : ∀ c ∈ name.toList, Literal c) : Holds lib name key line :=
  ⟨_, hparse, (patternsMatch_literal hname name).mpr rfl, rfl, rfl⟩

theorem irrelevant_line (hparse : lib.parse line = some ⟨none, .patterns [name], key⟩)
    (hname : ∀ c ∈ name.toList, Literal c) {other : String} (h : other ≠ name) :
    Irrelevant lib other line := by
  intro entry he
  rw [hparse] at he
  cases he
  right
  rw [hostMatches, ← Bool.not_eq_true, patternsMatch_literal hname]
  exact h

/-- An unmarked line with the key itself is no reason to refuse it. -/
theorem refused_of_grows (hparse : lib.parse line = some ⟨none, .patterns [name], key⟩)
    (hgrows : ∀ path ∈ files, Grows lib line (s path) (s' path))
    (h : Refused lib name key (files.map fun path => (path, s' path))) :
    Refused lib name key (files.map fun path => (path, s path)) := by
  have hmatching {marker : Option Marker} {P : κ → Prop} (hline : ¬ (none = marker ∧ P key))
      (hm : AnyLine (files.map fun path => (path, s' path)) (Matching lib name marker P)) :
      AnyLine (files.map fun path => (path, s path)) (Matching lib name marker P) := by
    have hnot : ¬ Matching lib name marker P line := by
      rintro ⟨entry, he, -, hmark, hkey⟩
      rw [hparse] at he
      cases he
      exact hline ⟨hmark, hkey⟩
    obtain ⟨f, hf, hl⟩ := hm
    obtain ⟨path, hp, rfl⟩ := List.mem_map.mp hf
    exact ⟨_, List.mem_map_of_mem hp, (hgrows path hp).matching hnot hl⟩
  rcases h with h | h | h
  · left
    intro hr
    refine h fun f hf e he => ?_
    obtain ⟨path, hp, rfl⟩ := List.mem_map.mp hf
    have hg : Grows lib line (s path) (.unreadable e) := he ▸ hgrows path hp
    exact hr _ (List.mem_map_of_mem hp) e hg.unreadable
  · right; left
    exact hmatching (fun hm => hm.2.1 rfl) h
  · right; right
    exact hmatching (fun hm => by cases hm.1) h

variable [DecidableEq κ] [DecidableEq α]

theorem eq_known {status : HostKeyStatus} (h : status.decision = .known) : status = .known := by
  cases status <;> first | rfl | cases h

theorem eq_unknown {status : HostKeyStatus} (h : status.decision = .unknown) :
    status = .unknown := by
  cases status <;> first | rfl | cases h

theorem check_known {host : String} {port : UInt16}
    (hparse : lib.parse line = some ⟨none, .patterns [hostName host port], key⟩)
    (hname : ∀ c ∈ (hostName host port).toList, Literal c)
    (hgrows : ∀ path ∈ files, Grows lib line (s path) (s' path))
    (hunknown : check lib (files.map fun path => (path, s path)) host port key = .unknown)
    {path : String} (hpath : path ∈ files) {l : String} (hl : l ∈ (s' path).lines)
    (hread : lib.parse l = lib.parse line) :
    check lib (files.map fun path => (path, s' path)) host port key = .known := by
  have hclean := ((decision_unknown_iff lib key _ host port).mp (congrArg _ hunknown)).1
  apply eq_known
  rw [decision_known_iff]
  constructor
  · exact fun h => hclean (refused_of_grows hparse hgrows h)
  · exact ⟨_, List.mem_map_of_mem hpath, l, hl, holds_line (hread.trans hparse) hname⟩

end Effect

theorem learnTo_mem (opts : ConnectOptions) : opts.learnTo ∈ filesToCheck opts := by
  rw [filesToCheck]
  split_ifs with h
  · exact h
  · exact List.mem_append_right _ List.mem_cons_self

theorem lines_state {found : Found} {bytes : List UInt8} (h : found.existing = .ok bytes) :
    found.state.lines = fileLines bytes := by
  cases found <;> cases h <;> rfl

/-- A key that no file holds is appended, and the files to check are then still what they were. -/
theorem learn_unknown {κ α : Type} [DecidableEq κ] [DecidableEq α] {layout : Layout}
    {lib : SshLib κ α} {encode : κ → Except String String} {faults : Faults} {nodes : Nodes}
    {opts : ConnectOptions} {host : String} {port : UInt16} {key : κ}
    (hmade : ∀ path ∈ filesToCheck opts, look layout nodes path = .missing →
      look layout (createDirAll layout faults (layout.through opts.learnTo) nodes).2 path =
        .missing)
    (hunknown : check lib (statesOf layout nodes opts) host port key = .unknown)
    (hok : (learn layout faults lib encode nodes opts.learnTo host port key).1 = .ok ()) :
    ∃ existing encoded made, encode key = .ok encoded ∧
      (∀ place, nodes place ≠ .missing → made place = nodes place) ∧
      (∀ path ∈ filesToCheck opts, look layout made path = look layout nodes path) ∧
      (look layout made opts.learnTo).existing = .ok existing ∧
      append layout faults opts.learnTo
          (Utf8.encode (addition existing (hostName host port) encoded).toList) made =
        (none, (learn layout faults lib encode nodes opts.learnTo host port key).2) := by
  obtain ⟨existing, hexisting, ⟨hk, -⟩ | ⟨encoded, made, hencode, hmkdir, happend⟩⟩ := learn_ok hok
  · -- The file is one of those that were checked.
    obtain ⟨l, hl, hholds⟩ := (scan_spec lib (hostName host port) key existing).1.mp hk
    refine absurd ?_ ((decision_unknown_iff lib key _ host port).mp (congrArg _ hunknown)).2
    refine ⟨_, List.mem_map_of_mem (learnTo_mem opts), l, ?_, hholds⟩
    rwa [lines_state hexisting]
  · have hkept : ∀ place, nodes place ≠ .missing → made place = nodes place := by
      intro place hplace
      have hk := createDirAll_of_ne_missing layout faults (layout.through opts.learnTo) hplace
      rwa [hmkdir] at hk
    have hlook : ∀ path ∈ filesToCheck opts, look layout made path = look layout nodes path := by
      intro path hp
      by_cases hm : look layout nodes path = .missing
      · have hmissing := hmade path hp hm
        rw [hmkdir] at hmissing
        rw [hm, hmissing]
      · exact look_made hkept hm
    rw [← hlook _ (learnTo_mem opts)] at hexisting
    exact ⟨existing, encoded, made, hencode, hkept, hlook, hexisting, happend⟩

/-- The library reads back the line that is written for a key, which is one line. -/
def ReadsBack {κ α : Type} (lib : SshLib κ α) (encode : κ → Except String String) (name : String)
    (key : κ) : Prop :=
  ∀ encoded, encode key = .ok encoded → '\n' ∉ (trimEnd encoded).toList ∧
    lib.parse (name ++ " " ++ trimEnd encoded) = some ⟨none, .patterns [name], key⟩

/-- A key that was learned is known, on its own line after those that were there, and nothing
else is. -/
theorem learn_effective {κ α : Type} [DecidableEq κ] [DecidableEq α] (layout : Layout)
    (lib : SshLib κ α) (encode : κ → Except String String) (faults : Faults) (nodes : Nodes)
    (opts : ConnectOptions) (host : String) (port : UInt16) (key : κ) (hhost : Plain host)
    (hreads : ReadsBack lib encode (hostName host port) key)
    (hcr : ∀ line, lib.parse (line ++ "\r") = lib.parse line)
    (hmade : ∀ path ∈ filesToCheck opts, look layout nodes path = .missing →
      look layout (createDirAll layout faults (layout.through opts.learnTo) nodes).2 path =
        .missing)
    (hunknown : check lib (statesOf layout nodes opts) host port key = .unknown)
    (hok : (learn layout faults lib encode nodes opts.learnTo host port key).1 = .ok ()) :
    let after := (learn layout faults lib encode nodes opts.learnTo host port key).2
    (∀ host', host'.toLower = host.toLower →
      check lib (statesOf layout after opts) host' port key = .known ∧
        ∀ faults, learn layout faults lib encode after opts.learnTo host' port key =
          (.ok (), after)) ∧
      (∃ before bytes encoded, (look layout nodes opts.learnTo).existing = .ok before ∧
        look layout after opts.learnTo = .readable bytes ∧ before <+: bytes ∧
          encode key = .ok encoded ∧ byteLines bytes = byteLines before ++
            [Utf8.encode (hostName host port ++ " " ++ trimEnd encoded).toList]) ∧
      (∀ place, place ≠ layout.spot opts.learnTo → nodes place ≠ .missing →
        after place = nodes place) ∧
      ∀ host' port' key', hostName host' port' ≠ hostName host port →
        check lib (statesOf layout after opts) host' port' key' =
          check lib (statesOf layout nodes opts) host' port' key' := by
  intro after
  have hname : ∀ c ∈ (hostName host port).toList, Literal c := literal_hostName hhost port
  obtain ⟨existing, encoded, made, hencode, hkept, hlook, hexisting, happend⟩ :=
    learn_unknown hmade hunknown hok
  obtain ⟨hnl, hparse⟩ := hreads encoded hencode
  have hbody : '\n' ∉ (hostName host port ++ " " ++ trimEnd encoded).toList := by
    simp only [String.toList_append, List.mem_append, not_or]
    exact ⟨⟨fun h => (hname _ h).newline rfl, by decide⟩, hnl⟩
  have hgrows : ∀ path ∈ filesToCheck opts,
      Grows lib (hostName host port ++ " " ++ trimEnd encoded) (look layout nodes path).state
        (look layout after path).state := by
    intro path hp
    rw [← hlook path hp]
    exact grows_append hcr hbody hexisting happend path
  have hfile := look_append happend hexisting
  obtain ⟨l, hl, hread⟩ := exists_line_written existing hcr hbody
  constructor
  · intro host' hsame
    have hhost' : hostName host' port = hostName host port := by rw [hostName, hsame, hostName]
    constructor
    · rw [check, hhost', ← check]
      refine check_known hparse hname hgrows hunknown (learnTo_mem opts) (l := l) ?_ hread
      rw [hfile]
      exact hl
    · intro faults
      have hknown : (scan lib (hostName host' port) key (existing ++
          Utf8.encode (addition existing (hostName host port) encoded).toList)).known = true := by
        rw [hhost']
        exact (scan_spec lib _ key _).1.mpr ⟨l, hl, holds_line (hread.trans hparse) hname⟩
      rw [learn, hfile]
      simp [Found.existing, hknown]
  constructor
  · refine ⟨existing, _, encoded, ?_, hfile, List.prefix_append _ _, hencode,
      byteLines_addition hbody⟩
    rw [← hlook _ (learnTo_mem opts)]
    exact hexisting
  constructor
  · intro place hne hplace
    obtain ⟨-, bytes, -, hafter⟩ := append_ok happend
    rw [← hkept place hplace]
    exact (congrFun hafter place).trans (Function.update_of_ne hne _ _)
  · intro host' port' key' hne
    exact checkFiles_grows hgrows (irrelevant_line hparse hname hne) _ _

section Samples

def noFaults : Faults := ⟨fun _ => none, none, none⟩

/-- A directory with one file. -/
def sampleLayout : Layout where
  spot path := if path = "/h/.ssh" then 0 else 1
  through path := if path = "/h/.ssh" then [] else [0]
  isDirectory := "Is a directory (os error 21)"
  notDirectory := "Not a directory (os error 20)"

/-- A parser that does not mind white space at the end of a line. -/
def sampleParser : SshLib String String where
  parse line := sampleLib.parse (trimEnd line)
  mac := sampleLib.mac
  algorithm := sampleLib.algorithm

theorem sampleParser_cr (line : String) :
    sampleParser.parse (line ++ "\r") = sampleParser.parse line := by
  have hcr : HookMap.isWhiteSpace '\r' = true := by decide
  have htrim : trimEnd (line ++ "\r") = trimEnd line := by
    rw [trimEnd, String.toList_append, List.reverse_append]
    simp [trimEnd, hcr]
  simp only [sampleParser, htrim]

theorem sampleParser_readsBack : ReadsBack sampleParser .ok (hostName "h" 22) sampleKey := by
  intro encoded he
  cases he
  have hkey : trimEnd sampleKey = sampleKey := by decide +kernel
  have hline : trimEnd (hostName "h" 22 ++ " " ++ sampleKey) = "h " ++ sampleKey := by
    decide +kernel
  constructor
  · decide +kernel
  · have hname : hostName "h" 22 = "h" := by decide +kernel
    have hparse : sampleParser.parse (hostName "h" 22 ++ " " ++ sampleKey) =
        sampleLib.parse ("h " ++ sampleKey) := by simp only [sampleParser, hline]
    rw [hkey, hparse, hname]
    simp [sampleLib]

/-- A file without a newline at its end. -/
theorem learn_effective_unterminated :
    let nodes : Nodes := fun place => if place = 0 then .directory else .file "old".toUTF8.toList
    let opts : ConnectOptions := ⟨["/h/.ssh/known_hosts"], "/h/.ssh/known_hosts"⟩
    let after := (learn sampleLayout noFaults sampleParser .ok nodes opts.learnTo "h" 22
      sampleKey).2
    check sampleParser (statesOf sampleLayout after opts) "H" 22 sampleKey = .known := by
  intro nodes opts after
  have hunknown : check sampleParser (statesOf sampleLayout nodes opts) "h" 22 sampleKey =
      .unknown := eq_unknown (by decide +kernel)
  exact ((learn_effective sampleLayout sampleParser .ok noFaults nodes opts "h" 22 sampleKey
    (by decide +kernel) sampleParser_readsBack sampleParser_cr (by decide +kernel) hunknown
    (by decide +kernel)).1 "H" (by decide +kernel)).1

/-- A path to check that is made a directory while the key is learned. -/
theorem learn_not_always_effective :
    let nodes : Nodes := fun _ => .missing
    let opts : ConnectOptions := ⟨["/h/.ssh"], "/h/.ssh/known_hosts"⟩
    let result := learn sampleLayout noFaults sampleParser .ok nodes opts.learnTo "h" 22 sampleKey
    Plain "h" ∧ ReadsBack sampleParser .ok (hostName "h" 22) sampleKey ∧
      check sampleParser (statesOf sampleLayout nodes opts) "h" 22 sampleKey = .unknown ∧
      result.1 = .ok () ∧
      check sampleParser (statesOf sampleLayout result.2 opts) "h" 22 sampleKey ≠ .known := by
  intro nodes opts result
  constructor
  · decide +kernel
  constructor
  · exact sampleParser_readsBack
  constructor
  · exact eq_unknown (by decide +kernel)
  constructor
  · decide +kernel
  · intro h
    have hd : (check sampleParser (statesOf sampleLayout result.2 opts) "h" 22
        sampleKey).decision = .refuse := by decide +kernel
    rw [h] at hd
    cases hd

end Samples

end MultiAi.Learn
