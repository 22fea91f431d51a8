import MultiAi.Deploy.Intact
import MultiAi.Library.Log

/-! # The probe of this machine

The bundled binary is written beside the probe and moved into its place, unless the probe has its
bytes. Any operation may fail, a write that fails may leave anything, and the app may end before
any of them.
-/

namespace MultiAi.Deploy

open HookMap

def SshError.text : SshError → String
  | .connect m => "connect: " ++ m
  | .hostKeyRejected host port fingerprint =>
    s!"host key for {host}:{port} not trusted ({fingerprint})"
  | .hostKeyChanged host port file line =>
    s!"HOST KEY CHANGED for {host}:{port} (see {file}:{line}); refusing to connect"
  | .hostKeyRevoked host port file line =>
    s!"host key for {host}:{port} is REVOKED (see {file}:{line}); refusing to connect"
  | .auth m => "authentication: " ++ m
  | .channel m => "channel: " ++ m

def DeployError.text : DeployError → String
  | .detect m => "detect remote platform: " ++ m
  | .noBinary target path => s!"no probe for {target} (expected {path})"
  | .upload m => "upload probe: " ++ m
  | .hooks status stderr =>
    s!"install-hooks failed (status {debugStatus status}): {String.ofList stderr}"
  | .ssh e => e.text

end MultiAi.Deploy

namespace MultiAi.Local

open Deploy Asking Detect HookMap

section Paths

/-- A path, backwards, without the separators and dots at its end that name nothing. -/
def dropIdle : List Char → List Char
  | '/' :: path => dropIdle path
  | '.' :: '/' :: path => dropIdle path
  | path => path

/-- The last part of a path. -/
def fileName (path : String) : Option String :=
  let name := ((dropIdle path.toList.reverse).takeWhile (· ≠ '/')).reverse
  if name = [] ∨ name = ['.'] ∨ name = ['.', '.'] then none else some (String.ofList name)

/-- A path without its last part; the root stays. -/
def parent (path : String) : Option String :=
  let whole := dropIdle path.toList.reverse
  let dir := dropIdle (whole.dropWhile (· ≠ '/'))
  if whole = [] then none
  else if dir = [] ∧ path.toList.head? = some '/' then some "/"
  else some (String.ofList dir.reverse)

example : parent "/home/ann/.mai/bin/mai-probe" = some "/home/ann/.mai/bin" ∧
    parent "/mai-probe" = some "/" ∧ parent "bin/./mai-probe/" = some "bin" ∧
    fileName "bin/./mai-probe/" = some "mai-probe" ∧ fileName "bin/.." = none := by
  decide

end Paths

/-- What installing asks of this machine. -/
inductive Op (α : Type) where
  | read (path : String)
  | createDirAll (dir : String)
  | write (path : String) (content : α)
  | setMode (path : String) (mode : ℕ)
  | run (exe : String) (argv : List String)
  | nowMs
  | file (op : FileOp)
  /-- Start a child; whether it has all its pipes. -/
  | spawn (exe : String) (argv : List String)

abbrev Ans {α : Type} : Op α → Type
  | .read _ => Except (IoError IoKind) α
  | .createDirAll _ | .write .. | .setMode .. => Except (IoError IoKind) Unit
  | .run .. => Except (IoError IoKind) ExecOutput
  | .nowMs => ℕ
  | .file op => Answered IoKind op
  | .spawn .. => Except (IoError IoKind) Bool

abbrev Program (α ρ : Type) := Asking (Op α) Ans ρ

abbrev LocalEvent (α : Type) := Asking.Event (Ans (α := α))

/-- What the app knows of this machine and of its installation. -/
structure Connector where
  os : String
  arch : String
  home : String
  probes : ProbeStore
  client : String
  dir : String
  installHooks : Bool

def localOs (name : String) : Option Os :=
  match name with
  | "linux" => some .linux
  | "macos" => some .macOs
  | "windows" => some .windows
  | _ => none

/-- This machine, described like a remote host. -/
def localRemote (c : Connector) : Option RemoteHost := do
  let os ← localOs c.os
  let arch ← normalizeArch c.arch.toList
  pure ⟨⟨os, if os = .windows then .cmd else .posix⟩, arch, c.home⟩

section Programs

variable {α : Type} (ext : Externals α)

/-- Move the upload into place. -/
def swap (dir name : String) : Program α (Except (IoError IoKind) Bool) :=
  .ask .nowMs fun stamp =>
  (((swapIn dir name stamp).lift Op.file fun _ a => a) : Program α _).attempt fun () =>
  .done (.ok true)

/-- Put bytes at a path unless they are there: whether they were written. `stop` comes first
where another binary is replaced. -/
def placeBinary (exe : String) (bytes : α) (stop : Program α Unit) :
    Program α (Except (IoError IoKind) Bool) :=
  .ask (.read exe) fun existing =>
  if existing.toOption.map ext.sha256Hex = some (ext.sha256Hex bytes) then .done (.ok false)
  else match parent exe, fileName exe with
    | some dir, some name =>
      .ask (.createDirAll dir) fun made => (done made).attempt fun () =>
      .ask (.write (exe ++ ".upload") bytes) fun written => (done written).attempt fun () =>
      .ask (.setMode (exe ++ ".upload") 0o755) fun set => (done set).attempt fun () =>
      (if existing.toOption.isSome then stop else .done ()).bind fun () =>
      swap dir name
    | _, _ => .done (.error ⟨.other, "probe path has no directory"⟩)

/-- The hook results of an output, or the text of the failure. -/
def hooksOutcome (out : ExecOutput) : Except String (List HookResult) :=
  (hooksResult ext out).mapError DeployError.text

/-- Install the hooks, if they are wanted. -/
def installHooks (c : Connector) (exe : String) :
    Program α (Except String (List HookResult)) :=
  if c.installHooks then
    .ask (.run exe ["install-hooks"]) fun
      | .ok out => .done (hooksOutcome ext out)
      | .error e => .done (.error e.text)
  else .done (.ok [])

def deployErr (text : String) : OpenError := .needsUser (.deploy text)

/-- Start the probe: what is known of its hooks, and its pipes. -/
def serveLocal (c : Connector) (host : HostConfig) (exe : String)
    (hooks : Except String (List HookResult)) :
    Program α (Except OpenError (Except String (List HookResult))) :=
  .ask (.spawn exe (serveArgv c.client host.zellij)) fun
    | .error e => .done (.error (.retry ("start " ++ exe ++ ": " ++ e.text)))
    | .ok false => .done (.error (.retry "probe pipes unavailable"))
    | .ok true => .done (.ok hooks)

/-- Stop a running probe, best effort. -/
def stopLocal (c : Connector) (exe : String) : Program α Unit :=
  .ask (.run exe (stopArgv c.client)) fun _ => .done ()

/-- Install the bundled bytes, then the hooks, and start the probe. -/
def openWith (c : Connector) (host : HostConfig) (exe : String) (bytes : α) :
    Program α (Except OpenError (Except String (List HookResult))) :=
  (placeBinary ext exe bytes (stopLocal c exe)).bind fun
    | .error e => .done (.error (deployErr (exe ++ ": " ++ e.text)))
    | .ok _ => (installHooks ext c exe).bind (serveLocal c host exe)

def openLocal (c : Connector) (host : HostConfig) :
    Program α (Except OpenError (Except String (List HookResult))) :=
  match localRemote c with
  | none => .done (.error (deployErr "unsupported local platform"))
  | some remote =>
    match remote.target with
    | none => .done (.error (deployErr "unsupported local platform"))
    | some target =>
      .ask (.read (c.probes.binary target)) fun
        | .error e => .done (.error (deployErr (c.probes.binary target ++ ": " ++ e.text)))
        | .ok bytes => openWith ext c host (remote.probePath c.dir) bytes

end Programs

/-- How one operation is served: a file operation and a failure as in a swap, what a command
prints, what a write that fails leaves, the time, and whether a child has its pipes. -/
structure Reply (α : Type) where
  file : Service IoKind
  output : ExecOutput
  left : Option α
  stamp : ℕ
  pipes : Bool

section Serving

variable {α : Type}

def serve : (op : Op α) → Files α → Reply α → Ans op × Files α
  | .read path, files, v =>
    (if v.file.fails then .error v.file.error else
      match files[path]? with
      | none => .error v.file.error
      | some content => .ok content, files)
  | .createDirAll _, files, v | .setMode .., files, v =>
    (answer v.file.fails v.file.error (), files)
  | .write path content, files, v =>
    if v.file.fails then (.error v.file.error, leave files path v.left)
    else (.ok (), files.insert path content)
  | .run .., files, v => (answer v.file.fails v.file.error v.output, files)
  | .nowMs, files, v => (v.stamp, files)
  | .file op, files, v => MultiAi.serve op files v.file
  | .spawn .., files, v => (answer v.file.fails v.file.error v.pipes, files)

end Serving

section Conditions

variable {α : Type} (ext : Externals α) (c : Connector) (exe : String) (bytes : α)
  (h : List (LocalEvent α))

/-- An operation that changes files. -/
def Op.Touches : Op α → Prop
  | .createDirAll _ | .write .. | .setMode .. | .file (.remove _) | .file (.rename ..) => True
  | _ => False

/-- An operation that starts the binary for what comes after the installation. -/
def Op.Starts (exe : String) : Op α → Prop
  | .spawn path _ => path = exe
  | .run path argv => path = exe ∧ argv = ["install-hooks"]
  | _ => False

/-- What was read at the path of the binary. -/
def Found (existing : Except (IoError IoKind) α) : Prop := ⟨.read exe, existing⟩ ∈ h

/-- The upload was written to its end. -/
def Whole : Prop := ⟨.write (exe ++ ".upload") bytes, .ok ()⟩ ∈ h

/-- When an operation may be asked for. -/
structure Allowed (op : Op α) : Prop where
  touches : op.Touches → ∃ existing, Found exe h existing ∧
    existing.toOption.map ext.sha256Hex ≠ some (ext.sha256Hex bytes)
  stop : op = .run exe (stopArgv c.client) → Whole exe bytes h ∧
    (∃ content, Found exe h (.ok content) ∧ ext.sha256Hex content ≠ ext.sha256Hex bytes) ∧
    ∀ file a, ⟨.file file, a⟩ ∉ h
  file : ∀ file, op = .file file → Whole exe bytes h ∧
    ∀ content, Found exe h (.ok content) → ∃ a, ⟨.run exe (stopArgv c.client), a⟩ ∈ h

/-- Each operation is allowed where it is asked for, and the binary was not started. -/
structure Calm : Prop where
  orderly : Log.Each (fun h e => Allowed ext c exe bytes h e.1) h
  idle : ∀ e ∈ h, ¬ e.1.Starts exe

end Conditions

section Paths

variable {front : List Char} {c : Char}

theorem dropIdle_cons (hs : c ≠ '/') (hd : c ≠ '.') (path : List Char) :
    dropIdle (c :: path) = c :: path := by
  rw [dropIdle]
  · rintro rest h
    exact hs (List.cons.inj h).1
  · rintro rest h
    exact hd (List.cons.inj h).1

/-- A path splits where its last part begins. -/
theorem split_path {dir name : String} {d n : Char} {start : List Char}
    (hdir : dir.toList = front ++ [d]) (hd : d ≠ '/' ∧ d ≠ '.')
    (hname : name.toList = start ++ [n]) (hn : n ≠ '.') (hslash : '/' ∉ name.toList) :
    parent (dir ++ "/" ++ name) = some dir ∧ fileName (dir ++ "/" ++ name) = some name := by
  have hne : n ≠ '/' := by
    rintro rfl
    exact hslash (by simp [hname])
  have hwhole : dropIdle (dir ++ "/" ++ name).toList.reverse =
      name.toList.reverse ++ '/' :: dir.toList.reverse := by
    have hrev : (dir ++ "/" ++ name).toList.reverse =
        n :: (start.reverse ++ '/' :: dir.toList.reverse) := by simp [hname]
    rw [hrev, dropIdle_cons hne hn]
    simp [hname]
  have hdir' : dropIdle ('/' :: dir.toList.reverse) = dir.toList.reverse := by
    rw [dropIdle, hdir, List.reverse_concat, dropIdle_cons hd.1 hd.2]
  have hpart : ∀ c ∈ name.toList.reverse, decide (c ≠ '/') = true := by
    intro c hc
    refine decide_eq_true ?_
    rintro rfl
    exact hslash (List.mem_reverse.mp hc)
  constructor
  · simp only [parent, hwhole, List.dropWhile_append_of_pos hpart]
    rw [List.dropWhile_cons_of_neg (by simp), hdir', if_neg (by simp), if_neg (by simp [hdir]),
      List.reverse_reverse, String.ofList_toList]
  · simp only [fileName, hwhole, List.takeWhile_append_of_pos hpart]
    rw [List.takeWhile_cons_of_neg (by simp), List.append_nil, List.reverse_reverse, if_neg,
      String.ofList_toList]
    rw [hname]
    rintro (h | h | h)
    · simp at h
    · exact hn (by simpa using congrArg List.getLast? h)
    · exact hn (by simpa using congrArg List.getLast? h)

/-- Where the probe of a Unix machine is. -/
theorem localRemote_path {c : Connector} {remote : RemoteHost} (h : localRemote c = some remote)
    (hunix : remote.os ≠ .windows) :
    let dir := c.home ++ "/" ++ c.dir ++ "/bin"
    remote.probePath c.dir = dir ++ "/" ++ remote.exeName ∧ remote.exeName = "mai-probe" ∧
      parent (remote.probePath c.dir) = some dir ∧
      fileName (remote.probePath c.dir) = some "mai-probe" := by
  intro dir
  have hname : remote.exeName = "mai-probe" := if_neg hunix
  have hhome : remote.home = c.home := by
    simp only [localRemote, Option.bind_eq_bind, Option.bind_eq_some_iff] at h
    obtain ⟨os, -, arch, -, hr⟩ := h
    cases hr
    rfl
  have hpath : remote.probePath c.dir = dir ++ "/" ++ "mai-probe" := by
    rw [RemoteHost.probePath, if_neg hunix, hname, hhome]
    simp only [dir, String.append_assoc]
    rfl
  have hdir : dir.toList = (c.home ++ "/" ++ c.dir ++ "/bi").toList ++ ['n'] := by simp [dir]
  have hsplit : parent (dir ++ "/" ++ "mai-probe") = some dir ∧
      fileName (dir ++ "/" ++ "mai-probe") = some "mai-probe" :=
    @split_path _ dir "mai-probe" 'n' 'e' "mai-prob".toList hdir (by decide) (by decide) (by decide)
      (by decide)
  rw [hpath, hname]
  exact ⟨rfl, rfl, hsplit⟩

end Paths

section Rules

variable {α ρ : Type} {ext : Externals α} {c : Connector} {exe : String} {bytes : α}
  {h : List (LocalEvent α)} {op : Op α} {before now mid : Files α}

theorem Calm.nil : Calm ext c exe bytes ([] : List (LocalEvent α)) :=
  ⟨Log.each_nil, by simp⟩

theorem Calm.concat (hc : Calm ext c exe bytes h) (ha : Allowed ext c exe bytes h op)
    (hs : ¬ op.Starts exe) (a : Ans op) : Calm ext c exe bytes (h ++ [⟨op, a⟩]) where
  orderly := Log.each_concat.mpr ⟨hc.orderly, ha⟩
  idle := by
    intro e he
    rcases List.mem_append.mp he with he | he
    · exact hc.idle e he
    · rw [List.mem_singleton.mp he]
      exact hs

/-- An operation that is not a file operation, nor one of the binary. -/
theorem Allowed.plain (hfile : ∀ file, op ≠ .file file) (hrun : ∀ argv, op ≠ .run exe argv)
    (ht : op.Touches → ∃ existing, Found exe h existing ∧
      existing.toOption.map ext.sha256Hex ≠ some (ext.sha256Hex bytes)) :
    Allowed ext c exe bytes h op where
  touches := ht
  stop := fun heq => absurd heq (hrun _)
  file := fun file heq => absurd heq (hfile file)

theorem serve_read (path : String) (files : Files α) (v : Reply α) :
    (serve (.read path) files v).2 = files ∧ ∀ content, (serve (.read path) files v).1 =
      .ok content → files[path]? = some content := by
  refine ⟨rfl, fun content h => ?_⟩
  simp only [serve] at h
  split_ifs at h
  cases hf : files[path]? with
  | none => simp [hf] at h
  | some content' => simpa [hf] using h

theorem serve_write (path : String) (content : α) (files : Files α) (v : Reply α) :
    (∀ other, path ≠ other → (serve (.write path content) files v).2[other]? = files[other]?) ∧
      ((serve (.write path content) files v).1 = .ok () →
        (serve (.write path content) files v).2[path]? = some content) := by
  simp only [serve]
  split_ifs
  · exact ⟨fun other hne => leave_ne hne _, by simp⟩
  · exact ⟨fun other hne => by simp [Std.ExtTreeMap.getElem?_insert, hne], by simp⟩

end Rules

section Place

variable {α : Type} {ext : Externals α} {c : Connector} {exe dir name : String} {bytes : α}
  {h : List (LocalEvent α)} {op : Op α} {before now mid : Files α}

variable (ext c exe bytes before) in
/-- At every moment of an installation. -/
def Placing (h : List (LocalEvent α)) (now : Files α) : Prop :=
  Calm ext c exe bytes h ∧ Intact ext exe (ext.sha256Hex bytes) before now

variable (ext exe bytes before) in
/-- At the end of an installation. -/
def Ended {ε ρ : Type} (now : Files α) : Except ε ρ → Prop
  | .ok _ => Holds ext exe (ext.sha256Hex bytes) now
  | .error _ => now[exe]? = before[exe]? ∨ Aside exe before now

variable (ext c exe bytes h) in
/-- The upload may be moved into place. -/
structure Ready : Prop where
  calm : Calm ext c exe bytes h
  differs : ∃ existing, Found exe h existing ∧
    existing.toOption.map ext.sha256Hex ≠ some (ext.sha256Hex bytes)
  whole : Whole exe bytes h
  stopped : ∀ content, Found exe h (.ok content) → ∃ a, ⟨.run exe (stopArgv c.client), a⟩ ∈ h

theorem Ready.concat (hr : Ready ext c exe bytes h) (hop : op = .nowMs ∨ ∃ file, op = .file file)
    (a : Ans op) : Ready ext c exe bytes (h ++ [⟨op, a⟩]) := by
  have ha : Allowed ext c exe bytes h op := by
    refine ⟨fun _ => hr.differs, ?_, fun _ _ => ⟨hr.whole, hr.stopped⟩⟩
    rintro rfl
    simp at hop
  have hidle : ¬ op.Starts exe := by
    rcases hop with rfl | ⟨file, rfl⟩ <;> exact id
  have hread : ∀ existing, Found exe (h ++ [⟨op, a⟩]) existing → Found exe h existing := by
    intro existing hf
    rcases List.mem_append.mp hf with hf | hf
    · exact hf
    · cases List.mem_singleton.mp hf
      simp at hop
  obtain ⟨existing, hf, hd⟩ := hr.differs
  refine ⟨hr.calm.concat ha hidle a, ⟨existing, List.mem_append_left _ hf, hd⟩,
    List.mem_append_left _ hr.whole, fun content hf => ?_⟩
  obtain ⟨out, hm⟩ := hr.stopped content (hread _ hf)
  exact ⟨out, List.mem_append_left _ hm⟩

/-- From a whole upload on. -/
theorem swap_safe (hexe : exe = dir ++ "/" ++ name) (hr : Ready ext c exe bytes h)
    (hu : Untouched exe before mid) (hh : Holds ext (exe ++ ".upload") (ext.sha256Hex bytes) mid) :
    (swap dir name).Safe serve (Placing ext c exe bytes before)
      (fun _ now r => Ended ext exe bytes before now r) h mid := by
  subst hexe
  refine ⟨⟨hr.calm, hu.intact⟩, fun v => Safe.attempt ?_⟩
  have hkept : Kept (κ := IoKind) (dir ++ "/" ++ name) mid [] mid :=
    ⟨fun _ _ _ _ => rfl, rfl, rfl, rfl⟩
  have hsafe : (swapIn dir name v.stamp).Safe _ _ _ [] mid := swapIn_safe hkept
  refine Safe.lift (fun _ now h now' => now' = now ∧ Ready ext c (dir ++ "/" ++ name) bytes h)
    ?_ ?_ ?_ hsafe.here_end ⟨rfl, hr.concat (.inl rfl) _⟩
  · rintro _ now h _ op v ⟨rfl, hr⟩
    exact ⟨v.file, rfl, rfl, hr.concat (.inr ⟨op, rfl⟩) _⟩
  · rintro _ now h _ ⟨rfl, hr⟩ hs
    exact ⟨hr.calm, hu.stage hs hh⟩
  · rintro _ _ h now (e | ⟨⟩) ⟨rfl, hr⟩ ⟨hs, he⟩
    · have hend : Settled ext (dir ++ "/" ++ name) (ext.sha256Hex bytes) before now
        (.error (.upload "") : Except DeployError Unit) := hu.ends hs hh he rfl
      exact hend
    · have hend : Settled ext (dir ++ "/" ++ name) (ext.sha256Hex bytes) before now
        (.ok () : Except DeployError Unit) := hu.ends hs hh he rfl
      exact ⟨⟨hr.calm, hu.stage hs hh⟩, hend⟩

variable (ext c exe bytes h) in
/-- The binary was read and no file was moved. -/
structure Early (existing : Except (IoError IoKind) α) : Prop where
  calm : Calm ext c exe bytes h
  found : Found exe h existing
  only : ∀ other, Found exe h other → other = existing
  unmoved : ∀ file a, ⟨.file file, a⟩ ∉ h

variable {existing : Except (IoError IoKind) α}

theorem Early.concat (he : Early ext c exe bytes h existing) (ha : Allowed ext c exe bytes h op)
    (hs : ¬ op.Starts exe) (hr : ∀ path, op ≠ .read path) (hf : ∀ file, op ≠ .file file)
    (a : Ans op) : Early ext c exe bytes (h ++ [⟨op, a⟩]) existing where
  calm := he.calm.concat ha hs a
  found := List.mem_append_left _ he.found
  only := by
    intro other ho
    rcases List.mem_append.mp ho with ho | ho
    · exact he.only other ho
    · cases List.mem_singleton.mp ho
      exact absurd rfl (hr exe)
  unmoved := by
    intro file b hm
    rcases List.mem_append.mp hm with hm | hm
    · exact he.unmoved file b hm
    · cases List.mem_singleton.mp hm
      exact absurd rfl (hf file)

/-- A step of an upload. -/
theorem Early.touch (he : Early ext c exe bytes h existing)
    (hd : existing.toOption.map ext.sha256Hex ≠ some (ext.sha256Hex bytes))
    (hop : (∃ path, op = .createDirAll path) ∨ (∃ path content, op = .write path content) ∨
      ∃ path mode, op = .setMode path mode) (a : Ans op) :
    Early ext c exe bytes (h ++ [⟨op, a⟩]) existing := by
  rcases hop with ⟨path, rfl⟩ | ⟨path, content, rfl⟩ | ⟨path, mode, rfl⟩ <;>
    exact he.concat (.plain (by simp) (by simp) fun _ => ⟨existing, he.found, hd⟩) id (by simp)
      (by simp) a

/-- The probe that is replaced is stopped first. -/
theorem stop_safe (he : Early ext c exe bytes h existing)
    (hd : existing.toOption.map ext.sha256Hex ≠ some (ext.sha256Hex bytes))
    (hw : Whole exe bytes h)
    (hcalm : ∀ h, Calm ext c exe bytes h → Placing ext c exe bytes before h mid) :
    (if existing.toOption.isSome then stopLocal c exe else (.done () : Program α Unit)).Safe serve
      (Placing ext c exe bytes before) (fun h now _ => now = mid ∧ Ready ext c exe bytes h)
      h mid := by
  cases existing with
  | error e =>
    refine ⟨hcalm h he.calm, rfl, he.calm, ⟨_, he.found, hd⟩, hw, fun content hf => ?_⟩
    cases he.only _ hf
  | ok content =>
    have hstop : Allowed ext c exe bytes h (.run exe (stopArgv c.client)) := by
      refine ⟨False.elim, fun _ => ⟨hw, ⟨content, he.found, ?_⟩, he.unmoved⟩, by simp⟩
      simpa [Except.toOption] using hd
    have hne : stopArgv c.client ≠ ["install-hooks"] := by simp [stopArgv]
    refine ⟨hcalm h he.calm, fun v => ?_⟩
    have he' := he.concat hstop (fun hs => hne hs.2) (by simp) (by simp)
      (serve (.run exe (stopArgv c.client)) mid v).1
    refine ⟨hcalm _ he'.calm, rfl, he'.calm, ⟨_, he'.found, hd⟩, List.mem_append_left _ hw, ?_⟩
    exact fun _ _ => ⟨_, List.mem_append_right _ (List.mem_singleton_self _)⟩

/-- The binary is left alone, or made by a whole upload that is moved into its place. -/
theorem placeBinary_safe (hexe : exe = dir ++ "/" ++ name) (hparent : parent exe = some dir)
    (hname : fileName exe = some name) :
    (placeBinary ext exe bytes (stopLocal c exe)).Safe serve (Placing ext c exe bytes before)
      (fun _ now r => Ended ext exe bytes before now r) [] before := by
  have hu : Untouched exe before before := .refl
  have hread : Allowed ext c exe bytes [] (.read exe) :=
    .plain (by simp) (by simp) False.elim
  refine ⟨⟨.nil, hu.intact⟩, fun v => ?_⟩
  obtain ⟨hfiles, hcontent⟩ := serve_read exe before v
  rw [hfiles]
  generalize (serve (.read exe) before v).1 = existing at hcontent ⊢
  have he : Early ext c exe bytes ([] ++ [⟨.read exe, existing⟩]) existing := by
    refine ⟨Calm.nil.concat hread id existing, by simp [Found], ?_, by simp⟩
    intro other ho
    cases List.mem_singleton.mp ho
    rfl
  generalize ([] ++ [⟨.read exe, existing⟩] : List (LocalEvent α)) = h at he ⊢
  dsimp only
  by_cases hsame : existing.toOption.map ext.sha256Hex = some (ext.sha256Hex bytes)
  · -- The probe has the bytes already.
    rw [if_pos hsame]
    obtain ⟨content, hcont, hd⟩ := Option.map_eq_some_iff.mp hsame
    cases existing with
    | error e => cases hcont
    | ok content' =>
      cases hcont
      exact ⟨⟨he.calm, hu.intact⟩, content, hcontent content rfl, hd⟩
  rw [if_neg hsame, hparent, hname]
  -- The directory.
  refine ⟨⟨he.calm, hu.intact⟩, fun v => ?_⟩
  have hmade := he.touch hsame (.inl ⟨dir, rfl⟩)
  have hkeep : (serve (.createDirAll dir) before v).2 = before := rfl
  rw [hkeep]
  refine Safe.attempt ⟨⟨(hmade _).calm, hu.intact⟩, ?_⟩
  cases (serve (.createDirAll dir) before v).1 with
  | error e => exact .inl rfl
  | ok u =>
    replace he := hmade (.ok u)
    clear hmade
    -- The upload.
    refine ⟨⟨he.calm, hu.intact⟩, fun v => ?_⟩
    obtain ⟨hother, hbytes⟩ := serve_write (exe ++ ".upload") bytes before v
    generalize (serve (.write (exe ++ ".upload") bytes) before v).2 = mid at hother hbytes ⊢
    have hu : Untouched exe before mid :=
      ⟨fun path _ hup _ => hother path hup.symm, hother exe upload_ne_target⟩
    have hwritten := he.touch hsame (.inr (.inl ⟨exe ++ ".upload", bytes, rfl⟩))
    refine Safe.attempt ⟨⟨(hwritten _).calm, hu.intact⟩, ?_⟩
    cases hw : (serve (.write (exe ++ ".upload") bytes) before v).1 with
    | error e => exact .inl hu.binary
    | ok u =>
      replace he := hwritten (.ok u)
      have hwhole : Whole exe bytes (h ++ [⟨.createDirAll dir, .ok u⟩] ++
          [⟨.write (exe ++ ".upload") bytes, .ok u⟩]) := by simp [Whole]
      have hh : Holds ext (exe ++ ".upload") (ext.sha256Hex bytes) mid := ⟨bytes, hbytes hw, rfl⟩
      clear hwritten
      -- Its mode.
      refine ⟨⟨he.calm, hu.intact⟩, fun v => ?_⟩
      have hset := he.touch hsame (.inr (.inr ⟨exe ++ ".upload", 0o755, rfl⟩))
      refine Safe.attempt ⟨⟨(hset _).calm, hu.intact⟩, ?_⟩
      cases (serve (.setMode (exe ++ ".upload") 0o755) mid v).1 with
      | error e => exact .inl hu.binary
      | ok u =>
        refine Safe.bind ((stop_safe (hset (.ok u)) hsame (List.mem_append_left _ hwhole)
          fun h hc => ⟨hc, hu.intact⟩).mono ?_)
        rintro h now ⟨⟩ ⟨rfl, hr⟩
        exact swap_safe hexe hr hu hh

end Place

section Opening

variable {α : Type} {ext : Externals α} {c : Connector} {host : HostConfig} {exe dir name : String}
  {bytes : α} {h : List (LocalEvent α)} {before now : Files α}

variable (ext c exe bytes before) in
/-- At every moment after the bundled binary was read: what was asked for was allowed, and the
binary that was started is the bundled one. -/
structure Sound (h : List (LocalEvent α)) (now : Files α) : Prop where
  orderly : Log.Each (fun h e => Allowed ext c exe bytes h e.1) h
  intact : Intact ext exe (ext.sha256Hex bytes) before now
  started : (∃ e ∈ h, e.1.Starts exe) → Holds ext exe (ext.sha256Hex bytes) now

variable (ext exe bytes before) in
/-- How an opening ends for the binary. -/
def Opened (now : Files α) : Except OpenError (Except String (List HookResult)) → Prop
  | .ok _ | .error (.retry _) => Holds ext exe (ext.sha256Hex bytes) now
  | .error (.needsUser _) => now[exe]? = before[exe]? ∨ Aside exe before now

theorem Placing.sound (hp : Placing ext c exe bytes before h now) :
    Sound ext c exe bytes before h now :=
  ⟨hp.1.orderly, hp.2, fun ⟨e, he, hs⟩ => absurd hs (hp.1.idle e he)⟩

/-- The binary in place may be started. -/
theorem Sound.starts {op : Op α} (hs : Sound ext c exe bytes before h now)
    (hh : Holds ext exe (ext.sha256Hex bytes) now) (hop : op.Starts exe) (a : Ans op) :
    Sound ext c exe bytes before (h ++ [⟨op, a⟩]) now := by
  have ha : Allowed ext c exe bytes h op := by
    cases op with
    | run path argv =>
      obtain ⟨rfl, rfl⟩ := hop
      exact ⟨False.elim, by simp [stopArgv], by simp⟩
    | spawn path argv => exact ⟨False.elim, by simp, by simp⟩
    | _ => cases hop
  exact ⟨Log.each_concat.mpr ⟨hs.orderly, ha⟩, hs.intact, fun _ => hh⟩

theorem serveLocal_safe (hs : Sound ext c exe bytes before h now)
    (hh : Holds ext exe (ext.sha256Hex bytes) now) (hooks : Except String (List HookResult)) :
    (serveLocal c host exe hooks).Safe serve (Sound ext c exe bytes before)
      (fun _ now r => Opened ext exe bytes before now r) h now := by
  refine ⟨hs, fun v => ?_⟩
  have hs' : ∀ a, Sound ext c exe bytes before
      (h ++ [⟨.spawn exe (serveArgv c.client host.zellij), a⟩]) now := hs.starts hh rfl
  have hkeep : (serve (.spawn exe (serveArgv c.client host.zellij)) now v).2 = now := rfl
  rw [hkeep]
  rcases (serve (.spawn exe (serveArgv c.client host.zellij)) now v).1 with e | _ | _
  · exact ⟨hs' _, hh⟩
  · exact ⟨hs' _, hh⟩
  · exact ⟨hs' _, hh⟩

theorem openWith_safe (hexe : exe = dir ++ "/" ++ name) (hparent : parent exe = some dir)
    (hname : fileName exe = some name) :
    (openWith ext c host exe bytes).Safe serve (Sound ext c exe bytes before)
      (fun _ now r => Opened ext exe bytes before now r) [] before := by
  have hplace : (placeBinary ext exe bytes (stopLocal c exe)).Safe serve
      (Placing ext c exe bytes before) (fun _ now r => Ended ext exe bytes before now r)
      [] before :=
    placeBinary_safe hexe hparent hname
  refine Safe.bind (hplace.here_end.imp (fun _ _ h => h.sound) ?_)
  rintro h now (e | placed) ⟨hp, hend⟩
  · exact ⟨hp.sound, hend⟩
  have hs := hp.sound
  dsimp only [installHooks]
  split_ifs
  · refine ⟨hs, fun v => ?_⟩
    have hkeep : (serve (.run exe ["install-hooks"]) now v).2 = now := rfl
    have hs' : ∀ a, Sound ext c exe bytes before (h ++ [⟨.run exe ["install-hooks"], a⟩]) now :=
      hs.starts hend ⟨rfl, rfl⟩
    rw [hkeep]
    cases (serve (.run exe ["install-hooks"]) now v).1 with
    | error e => exact serveLocal_safe (hs' _) hend _
    | ok out => exact serveLocal_safe (hs' _) hend _
  · exact serveLocal_safe hs hend _

end Opening

/-- One opening of this machine's probe, and how it is served. -/
structure Call (α : Type) where
  connector : Connector
  host : HostConfig
  replies : List (Reply α)

/-- What happens on this machine: a probe is opened, cut or not, or another file changes. -/
inductive Happening (α : Type) where
  | opens (call : Call α)
  | changes (path : String) (content : Option α)

section Runs

variable {α : Type} (ext : Externals α)

def Call.run (call : Call α) (files : Files α) :
    Run (Ans (α := α)) (Files α) (Except OpenError (Except String (List HookResult))) :=
  (openLocal ext call.connector call.host).run serve files call.replies

/-- The path of the bundled binary. -/
def Call.bundle (call : Call α) : Option String :=
  (localRemote call.connector).bind fun remote =>
    remote.target.map call.connector.probes.binary

/-- The machine is a Unix one and its probe is at `exe`. -/
def Call.At (call : Call α) (exe : String) : Prop :=
  ∀ remote, localRemote call.connector = some remote →
    remote.os ≠ .windows ∧ remote.probePath call.connector.dir = exe

def Happening.step (files : Files α) : Happening α → Files α
  | .opens call => (call.run ext files).state
  | .changes path none => files.erase path
  | .changes path (some content) => files.insert path content

/-- The files after what happened. -/
def after (things : List (Happening α)) (files : Files α) : Files α :=
  things.foldl (Happening.step ext) files

/-- What one opening does: nothing without the bundled bytes; with them, all of it is sound. -/
def Call.Spec (call : Call α) (exe : String) (files : Files α) : Prop :=
  let r := call.run ext files
  (r.state = files ∧ (∀ e ∈ r.events, ∃ path, e.1 = .read path) ∧
    ∀ hooks, r.result ≠ some (.ok hooks)) ∨
  ∃ bin bytes rest, call.bundle = some bin ∧ files[bin]? = some bytes ∧
    r.events = ⟨.read bin, .ok bytes⟩ :: rest ∧
    Sound ext call.connector exe bytes files rest r.state ∧
    ∀ result, r.result = some result → Opened ext exe bytes files r.state result

variable {ext} {call : Call α} {things : List (Happening α)} {exe : String} {files : Files α}

theorem Call.run_spec (hat : call.At exe) (files : Files α) : call.Spec ext exe files := by
  obtain ⟨c, host, vs⟩ := call
  rw [Call.Spec, Call.run]
  simp only [Call.bundle, openLocal]
  cases hr : localRemote c with
  | none => exact .inl ⟨by simp, by simp, by simp⟩
  | some remote =>
    cases ht : remote.target with
    | none => exact .inl ⟨by simp [ht], by simp [ht], by simp [ht]⟩
    | some target =>
      cases vs with
      | nil => exact .inl ⟨by simp [ht], by simp [ht], by simp [ht]⟩
      | cons v vs =>
        obtain ⟨hkeep, hcontent⟩ := serve_read (c.probes.binary target) files v
        simp only [ht, run_ask_cons, hkeep, Option.bind_some, Option.map_some]
        cases hread : (serve (.read (c.probes.binary target)) files v).1 with
        | error e => exact .inl ⟨by simp, by simp, by simp⟩
        | ok bytes =>
          obtain ⟨hunix, hpath⟩ := hat remote hr
          obtain ⟨hexe, hname, hparent, hfile⟩ := localRemote_path hr hunix
          rw [hname] at hexe
          have hsafe : (openWith ext c host (remote.probePath c.dir) bytes).Safe serve
              (Sound ext c (remote.probePath c.dir) bytes files) (fun _ now r =>
                Opened ext (remote.probePath c.dir) bytes files now r) [] files :=
            openWith_safe hexe hparent hfile
          have hopen := hsafe.run vs
          rw [hpath, List.nil_append] at hopen
          dsimp only
          rw [hpath]
          exact .inr ⟨_, bytes, _, rfl, hcontent bytes hread, rfl, hopen⟩

/-- A bundled binary that some opening has read, by its hash. -/
def Bundled (ext : Externals α) (things : List (Happening α)) (files : Files α) (hash : String) :
    Prop :=
  ∃ earlier call later bin bytes, things = earlier ++ .opens call :: later ∧
    call.bundle = some bin ∧ (after ext earlier files)[bin]? = some bytes ∧
    ext.sha256Hex bytes = hash

theorem after_concat (things : List (Happening α)) (thing : Happening α) (files : Files α) :
    after ext (things ++ [thing]) files = thing.step ext (after ext things files) := by
  simp [after]

theorem Bundled.concat {hash : String} (h : Bundled ext things files hash) (thing : Happening α) :
    Bundled ext (things ++ [thing]) files hash := by
  obtain ⟨earlier, call, later, bin, bytes, rfl, rest⟩ := h
  exact ⟨earlier, call, later ++ [thing], bin, bytes, by simp, rest⟩

/-- What one opening leaves at the path of the binary. -/
theorem Call.Spec.binary (hs : call.Spec ext exe files) {content : α}
    (hc : (call.run ext files).state[exe]? = some content) :
    files[exe]? = some content ∨ ∃ bin bytes, call.bundle = some bin ∧
      files[bin]? = some bytes ∧ ext.sha256Hex bytes = ext.sha256Hex content := by
  rcases hs with ⟨hs, -⟩ | ⟨bin, bytes, rest, hbin, hbytes, -, hsound, -⟩
  · exact .inl (hs ▸ hc)
  · rcases hsound.intact.binary with h | ⟨h, -⟩ | ⟨content', h, hd⟩
    · exact .inl (h ▸ hc)
    · rw [h] at hc
      cases hc
    · cases hc.symm.trans h
      exact .inr ⟨bin, bytes, hbin, hbytes, hd.symm⟩

end Runs

namespace Example

def reply : Reply String where
  file := ⟨false, ⟨.other, ""⟩, true, []⟩
  output := ⟨some 0, [], []⟩
  left := none
  stamp := 0
  pipes := true

/-- An opening that is served twenty operations. -/
def call : Call String where
  connector := ⟨"linux", "x86_64", "/home/u", ⟨"/app"⟩, "app", ".mai", true⟩
  host := ⟨"here", .localHost, none⟩
  replies := List.replicate 20 reply

def old : Files String :=
  ((∅ : Files String).insert "/home/u/.mai/bin/mai-probe" "old").insert
    "/app/x86_64-unknown-linux-musl/mai-probe" "new"

theorem call_at : call.At "/home/u/.mai/bin/mai-probe" := by
  intro remote h
  cases h
  exact ⟨by decide, rfl⟩

end Example

end MultiAi.Local
