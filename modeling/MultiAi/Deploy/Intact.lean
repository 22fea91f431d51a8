import MultiAi.Deploy.Steps

/-! # Deploying to a host of files

The host keeps files, any of its operations may fail, a written file may hold anything, and the
connection may drop before any operation. What a hash command prints is the hash of the file
that it names, or no hash.
-/

namespace MultiAi.Deploy

open Asking Detect

/-- What a hash command prints for a file with the hash `hash`, or without one. -/
structure Printer where
  print : Option String → ExecOutput
  honest : ∀ hash found, parseHash (print hash).stdout = some found → hash = some found

/-- How one operation is served: a file operation and a failure as in a swap, what a command
prints, whether a directory is there, what is left in a file that is written, whether the
connection is closed and the time. -/
structure Reply (α : Type) where
  file : Service IoKind
  sshError : SshError
  output : ExecOutput
  printer : Printer
  found : Bool
  left : Option α
  closed : Bool
  stamp : ℕ

/-- The bundled binaries on the client's disk, and the file of the host whose hash a command
prints. -/
structure World (α : Type) where
  disk : String → Option α
  hashed : String → Option String

section Serving

variable {α : Type} (ext : Externals α) (world : World α)

/-- The answer of an operation that works. -/
def answer {ε ρ : Type} (fails : Bool) (e : ε) (r : ρ) : Except ε ρ :=
  if fails then .error e else .ok r

/-- What a write leaves behind, whatever it answers. -/
def leave (files : Files α) (path : String) : Option α → Files α
  | none => files
  | some content => files.insert path content

def World.output (files : Files α) (command : String) (v : Reply α) : ExecOutput :=
  match world.hashed command with
  | some path => v.printer.print (files[path]?.map ext.sha256Hex)
  | none => v.output

def World.serve : (op : Op α) → Files α → Reply α → Ans op × Files α
  | .read path, files, _ => (world.disk path, files)
  | .exec command, files, v =>
    (answer v.file.fails v.sshError (world.output ext files command v), files)
  | .sftp, files, v => (answer v.file.fails v.sshError (), files)
  | .tryExists _, files, v => (answer v.file.fails v.file.error v.found, files)
  | .createDir _, files, v | .setMode .., files, v =>
    (answer v.file.fails v.file.error (), files)
  | .create path, files, v | .writeAll path _, files, v | .shutdown path, files, v =>
    (answer v.file.fails v.file.error (), leave files path v.left)
  | .file op, files, v => MultiAi.serve op files v.file
  | .isClosed, files, v => (v.closed, files)
  | .nowMs, files, v => (v.stamp, files)

/-- The binary of a host, relative to the login directory. -/
def binary (dir : String) (remote : RemoteHost) : String := dir ++ "/bin" ++ "/" ++ remote.exeName

/-- The login directory is the home: the hash commands name the binary and the upload. -/
structure World.Sees (dir : String) (remote : RemoteHost) : Prop where
  ofBinary : world.hashed (remote.hashCommand (remote.probePath dir)) = some (binary dir remote)
  ofUpload : world.hashed (remote.hashCommand (remote.probePath dir ++ ".upload")) =
    some (binary dir remote ++ ".upload")

end Serving

section Intact

variable {α : Type} (ext : Externals α) (target : String) (hash : String) (before now : Files α)

/-- The binary has a hash. -/
def Holds : Prop := ∃ content, now[target]? = some content ∧ ext.sha256Hex content = hash

/-- The binary is gone, and what it held is under the name of a leftover. -/
def Aside : Prop := now[target]? = none ∧ ∃ name content, IsOld target name ∧
  before[target]? = some content ∧ now[name]? = some content

/-- The binary is as before, moved aside, or one with the right hash; other files than its
upload and its leftovers are as before. -/
structure Intact : Prop where
  elsewhere : SameElsewhere target before now
  binary : now[target]? = before[target]? ∨ Aside target before now ∨ Holds ext target hash now

end Intact

/-- The binary and all other files than its upload and its leftovers are as before. -/
structure Untouched {α : Type} (target : String) (before now : Files α) : Prop where
  elsewhere : SameElsewhere target before now
  binary : now[target]? = before[target]?

section Parts

variable {α ρ : Type} {ext : Externals α} {world : World α} {target hash : String}
  {before files : Files α} {C : List (DeployEvent α) → Files α → Prop}
  {Q : List (DeployEvent α) → Files α → Except DeployError ρ → Prop} {h : List (DeployEvent α)}

/-- An operation that leaves the files of the binary's directory alone. -/
def Op.Quiet : Op α → Prop
  | .create _ | .writeAll .. | .shutdown _ | .file _ => False
  | _ => True

/-- An operation that can change the file at a path only. -/
def Op.Writes (path : String) : Op α → Prop
  | .create other | .writeAll other _ | .shutdown other | .file (.remove other) => other = path
  | .file _ => False
  | _ => True

theorem Op.Quiet.serve {op : Op α} (hop : op.Quiet) (files : Files α) (v : Reply α) :
    (world.serve ext op files v).2 = files := by
  cases op <;> first | rfl | cases hop

theorem leave_ne {path other : String} (h : path ≠ other) (left : Option α) :
    (leave files path left)[other]? = files[other]? := by
  cases left with
  | none => rfl
  | some content => simp [leave, Std.ExtTreeMap.getElem?_insert, h]

theorem serve_remove_ne {path other : String} (h : path ≠ other) (v : Service IoKind) :
    (MultiAi.serve (.remove path) files v).2[other]? = files[other]? := by
  rcases serve_remove_case with hs | hs
  · rw [hs]
  · rw [hs]
    exact Files.erase_ne h

theorem Op.Writes.serve {op : Op α} {path other : String} (hop : op.Writes path)
    (hne : path ≠ other) (v : Reply α) :
    (world.serve ext op files v).2[other]? = files[other]? := by
  cases op with
  | create p | writeAll p _ | shutdown p =>
    cases hop
    exact leave_ne hne _
  | file op =>
    cases op with
    | remove p =>
      cases hop
      exact serve_remove_ne hne v.file
    | «exists» _ | rename _ _ | list _ => cases hop
  | read _ | exec _ | sftp | tryExists _ | createDir _ | setMode _ _ | isClosed | nowMs => rfl

theorem Untouched.refl : Untouched target before before :=
  ⟨fun _ _ _ _ => rfl, rfl⟩

theorem Untouched.intact (hu : Untouched target before files) :
    Intact ext target hash before files :=
  ⟨hu.elsewhere, .inl hu.binary⟩

theorem Untouched.write {op : Op α} (hu : Untouched target before files)
    (hop : op.Writes (target ++ ".upload")) (v : Reply α) :
    Untouched target before (world.serve ext op files v).2 where
  elsewhere := fun path ht hup hold =>
    (hop.serve hup.symm v).trans (hu.elsewhere path ht hup hold)
  binary := (hop.serve upload_ne_target v).trans hu.binary

end Parts

section Rules

variable {α ρ τ : Type} (ext : Externals α) (world : World α) {target hash : String}
  {before files : Files α} {C : Files α → Prop} {Q : Files α → Except DeployError ρ → Prop}
  {R : Files α → Except DeployError τ → Prop} {p : Program α ρ} {f : ρ → Program α τ}

/-- However a program is served, `C` holds of the files at every moment and `Q` at its end. -/
def During (C : Files α → Prop) (Q : Files α → Except DeployError ρ → Prop) (p : Program α ρ)
    (files : Files α) : Prop :=
  ∀ h, p.Safe (world.serve ext) (fun _ now => C now) (fun _ now r => Q now r) h files

variable {ext world}

theorem During.done {r : Except DeployError ρ} (hc : C files) (hq : Q files r) :
    During ext world C Q (.done r) files :=
  fun _ => ⟨hc, hq⟩

theorem During.ask {op : Op α} {next : Ans op → Program α ρ} (hc : C files)
    (h : ∀ v, During ext world C Q (next (world.serve ext op files v).1)
      (world.serve ext op files v).2) :
    During ext world C Q (.ask op next) files :=
  fun _ => ⟨hc, fun v => h v _⟩

theorem During.imp {C' : Files α → Prop} {Q' : Files α → Except DeployError ρ → Prop}
    (h : During ext world C Q p files) (hC : ∀ now, C now → C' now)
    (hQ : ∀ now r, Q now r → Q' now r) : During ext world C' Q' p files :=
  fun _ => (h _).imp (fun _ => hC) (fun _ => hQ)

theorem During.attempt (hp : During ext world C Q p files)
    (herr : ∀ now e, C now → Q now (.error e) → R now (.error e))
    (hok : ∀ now r, C now → Q now (.ok r) → During ext world C R (f r) now) :
    During ext world C R (p.attempt f) files := by
  refine fun h => Safe.attempt ((hp h).here_end.mono ?_)
  rintro h now (e | r) ⟨hc, hq⟩
  · exact herr now e hc hq
  · exact hok now r hc hq h

theorem During.exec {command : String} {f : ExecOutput → Program α τ} (hc : C files)
    (herr : ∀ e, R files (.error (.ssh e)))
    (hok : ∀ v, During ext world C R (f (world.output ext files command v)) files) :
    During ext world C R ((exec command).attempt f) files := by
  refine During.ask hc fun v => ?_
  simp only [World.serve, answer]
  cases v.file.fails with
  | true => exact During.done hc (herr _)
  | false => exact hok v

/-- A program that leaves the files alone. -/
theorem During.quiet (hp : p.Asks Op.Quiet) (hc : C files) :
    During ext world C (fun now _ => now = files) p files :=
  fun _ => hp.safe (I := fun _ now => now = files) rfl
    (fun _ _ _ _ hop hs => (hop.serve _ _).trans hs) fun _ _ hs => hs ▸ hc

/-- A program that changes the upload only. -/
theorem During.write (hp : p.Asks (Op.Writes (target ++ ".upload")))
    (hu : Untouched target before files) :
    During ext world (Untouched target before) (fun now _ => Untouched target before now) p files :=
  fun _ => hp.safe (I := fun _ now => Untouched target before now) hu
    (fun _ _ _ _ hop hs => hs.write hop _) fun _ _ hs => hs

end Rules

section Parts

variable {α : Type} {ext : Externals α} {world : World α} {dir : String} {remote : RemoteHost}
  {bytes : α} {before files : Files α}

theorem uploading_asks {ρ : Type} (r : Except (IoError IoKind) ρ) :
    (uploading r : Program α ρ).Asks (· = .isClosed) := by
  cases r with
  | error e => exact ⟨rfl, fun _ => trivial⟩
  | ok r => trivial

theorem makeDirs_asks (path : String) (parts : List String) :
    (makeDirs path parts : Program α Unit).Asks Op.Quiet := by
  induction parts generalizing path with
  | nil => trivial
  | cons part parts ih =>
    refine ⟨trivial, fun found => ((uploading_asks found).mono ?_).attempt ?_⟩
    · rintro _ rfl
      trivial
    · rintro (_ | _)
      · refine ⟨trivial, fun made => ((uploading_asks made).mono ?_).attempt fun _ => ih _⟩
        rintro _ rfl
        trivial
      · exact ih _

theorem write_asks (remote : RemoteHost) (tmp : String) (bytes : α) :
    (write remote tmp bytes).Asks (Op.Writes tmp) := by
  have hup : ∀ r, (uploading r : Program α Unit).Asks (Op.Writes tmp) := by
    refine fun r => (uploading_asks r).mono ?_
    rintro _ rfl
    trivial
  refine ⟨rfl, fun created => (hup created).attempt fun () => ?_⟩
  refine ⟨rfl, fun written => (hup written).attempt fun () => ?_⟩
  refine ⟨rfl, fun closed => (hup closed).attempt fun () => ?_⟩
  split
  · trivial
  · exact ⟨trivial, hup⟩

theorem reject_during {target text : String} (hu : Untouched target before files) :
    During ext world (Untouched target before) (fun now r => Untouched target before now ∧
      ∀ a, r ≠ .ok a) (reject (target ++ ".upload") text) files := by
  refine During.ask hu fun v => ?_
  have hop : (Op.file (.remove (target ++ ".upload")) : Op α).Writes (target ++ ".upload") := rfl
  exact During.done (hu.write hop v) ⟨hu.write hop v, by simp⟩

/-- The hash of the upload, as the host prints it, is that of the upload. -/
theorem verify_during (hsees : world.Sees dir remote)
    (hu : Untouched (binary dir remote) before files) :
    During ext world (Untouched (binary dir remote) before) (fun now r =>
        Untouched (binary dir remote) before now ∧ ∀ a, r = .ok a →
          Holds ext (binary dir remote ++ ".upload") (ext.sha256Hex bytes) now)
      (verify ext remote dir bytes (binary dir remote ++ ".upload")) files := by
  refine During.exec hu (fun e => ⟨hu, by simp⟩) fun v => ?_
  simp only [World.output, hsees.ofUpload]
  cases hp : parseHash (v.printer.print
      (files[binary dir remote ++ ".upload"]?.map ext.sha256Hex)).stdout with
  | none =>
    exact (reject_during hu).imp (fun _ h => h)
      fun _ _ h => ⟨h.1, fun a ha => absurd ha (h.2 a)⟩
  | some written =>
    dsimp only
    split_ifs with hw
    · exact (reject_during hu).imp (fun _ h => h) fun _ _ h => ⟨h.1, fun a ha => absurd ha (h.2 a)⟩
    · have hfile := v.printer.honest _ _ hp
      obtain ⟨content, hc, hd⟩ := Option.map_eq_some_iff.mp hfile
      exact During.done hu ⟨hu, fun _ _ => ⟨content, hc, hd.trans (not_not.mp hw)⟩⟩

end Parts

section Swap

variable {α : Type} {ext : Externals α} {world : World α} {target hash : String} {stamp : ℕ}
  {before mid now : Files α} {events : List (Event (Answered IoKind))}

theorem sameElsewhere_trans (h : SameElsewhere target before mid)
    (h' : SameElsewhere target mid now) : SameElsewhere target before now :=
  fun path ht hu ho => (h' path ht hu ho).trans (h path ht hu ho)

theorem Untouched.stage (hu : Untouched target before mid) (hs : Stage target stamp mid events now)
    (hh : Holds ext (target ++ ".upload") hash mid) : Intact ext target hash before now where
  elsewhere := sameElsewhere_trans hu.elsewhere hs.elsewhere
  binary := by
    cases hs with
    | kept h => exact .inl (h.binary.trans hu.binary)
    | @moved name h =>
      obtain ⟨content, hm, hn⟩ := h.old
      exact .inr (.inl ⟨h.binary, name, content, h.aside.isOld, hu.binary ▸ hm, hn⟩)
    | placed h =>
      obtain ⟨content, hm, hn⟩ := h.binary
      obtain ⟨content', hm', hd⟩ := hh
      cases hm.symm.trans hm'
      exact .inr (.inr ⟨content, hn, hd⟩)

/-- How a deployment ends for the binary. -/
def Settled {ρ : Type} (ext : Externals α) (target hash : String) (before now : Files α) :
    Except DeployError ρ → Prop
  | .ok _ => Holds ext target hash now
  | .error _ => now[target]? = before[target]? ∨ Aside target before now

theorem Untouched.ends (hu : Untouched target before mid) (hs : Stage target stamp mid events now)
    (hh : Holds ext (target ++ ".upload") hash mid) {r : Except (IoError IoKind) Unit}
    (he : Ends target stamp mid events now r) {r' : Except DeployError Unit}
    (hr : r.isOk = r'.isOk) : Settled ext target hash before now r' := by
  cases r with
  | ok a =>
    cases r' with
    | error e => cases hr
    | ok a' =>
      obtain ⟨content, hm, hn⟩ := he.binary
      obtain ⟨content', hm', hd⟩ := hh
      cases hm.symm.trans hm'
      exact ⟨content, hn, hd⟩
  | error e =>
    cases r' with
    | ok a' => cases hr
    | error e' =>
      cases hs with
      | kept h => exact .inl (h.binary.trans hu.binary)
      | @moved name h =>
        obtain ⟨content, hm, hn⟩ := h.old
        exact .inr ⟨h.binary, name, content, h.aside.isOld, hu.binary ▸ hm, hn⟩
      | placed h => exact absurd (h.placed.symm.trans he.1) (by decide)

/-- From a checked upload on. -/
theorem swap_during {binDir exe : String} (hu : Untouched (binDir ++ "/" ++ exe) before mid)
    (hh : Holds ext (binDir ++ "/" ++ exe ++ ".upload") hash mid) :
    During ext world (Intact ext (binDir ++ "/" ++ exe) hash before)
      (Settled ext (binDir ++ "/" ++ exe) hash before) (swap binDir exe) mid := by
  refine During.ask hu.intact fun v h => Safe.bind ?_
  have hkept : Kept (κ := IoKind) (binDir ++ "/" ++ exe) mid [] mid :=
    ⟨fun _ _ _ _ => rfl, rfl, rfl, rfl⟩
  have hsafe : (swapIn binDir exe v.stamp).Safe _ _ _ [] mid := swapIn_safe hkept
  refine Safe.lift (fun _ now _ now' => now' = now) ?_ ?_ ?_ hsafe.here_end rfl
  · rintro _ now _ _ op v rfl
    exact ⟨v.file, rfl, rfl⟩
  · rintro _ now _ _ rfl hs
    exact hu.stage hs hh
  · rintro _ now _ _ (e | ⟨⟩) rfl ⟨hs, he⟩
    · exact ⟨hu.stage hs hh, hu.ends hs hh he rfl⟩
    · exact ⟨hu.stage hs hh, hu.ends hs hh he rfl⟩

end Swap

section Calls

variable {α : Type} {ext : Externals α} {world : World α} {dir : String} {remote : RemoteHost}
  {bytes : α} {before files : Files α}

theorem upload_during (hsees : world.Sees dir remote) :
    During ext world (Intact ext (binary dir remote) (ext.sha256Hex bytes) before)
      (Settled ext (binary dir remote) (ext.sha256Hex bytes) before)
      (upload ext remote dir bytes) before := by
  have hu : Untouched (binary dir remote) before before := .refl
  refine During.ask hu.intact fun v => ?_
  simp only [World.serve, answer]
  cases v.file.fails with
  | true => exact During.done hu.intact (.inl rfl)
  | false =>
    simp only [Bool.false_eq_true, if_false, overSsh, attempt_ok]
    refine During.attempt (During.quiet (makeDirs_asks _ _) hu.intact) ?_ ?_
    · rintro now e - rfl
      exact .inl rfl
    rintro now ⟨⟩ - rfl
    refine During.attempt ((During.write (write_asks _ _ _) hu).imp (fun _ h => h.intact)
      fun _ _ h => h) ?_ ?_
    · exact fun now e _ h => .inl h.binary
    rintro now ⟨⟩ - hw
    refine During.attempt ((verify_during hsees hw).imp (fun _ h => h.intact) fun _ _ h => h) ?_ ?_
    · exact fun now e _ h => .inl h.1.binary
    · exact fun now _ _ h => swap_during h.1 (h.2 () rfl)

/-- Nothing is uploaded where the host prints the right hash. -/
theorem place_during {opts : DeployOptions} (hsees : world.Sees opts.dir remote) :
    During ext world (Intact ext (binary opts.dir remote) (ext.sha256Hex bytes) before)
      (fun now r => Settled ext (binary opts.dir remote) (ext.sha256Hex bytes) before now r ∧
        (r = .ok false → now = before)) (place ext opts remote bytes) before := by
  have hi : Intact ext (binary opts.dir remote) (ext.sha256Hex bytes) before before :=
    Untouched.refl.intact
  refine During.exec hi (fun e => ⟨.inl rfl, by simp⟩) fun v => ?_
  simp only [World.output, hsees.ofBinary]
  split_ifs with hh
  · refine During.attempt (During.quiet ?_ hi) ?_ ?_
    · rw [stop]
      split_ifs
      · exact ⟨trivial, fun _ => trivial⟩
      · trivial
    · rintro now e - rfl
      exact ⟨.inl rfl, by simp⟩
    · rintro now ⟨⟩ - rfl
      refine During.attempt (upload_during hsees) ?_ ?_
      · exact fun now e _ h => ⟨h, by simp⟩
      · exact fun now a hc h => During.done hc ⟨h, by simp⟩
  · have hfile := v.printer.honest _ _ (not_not.mp hh)
    exact During.done hi ⟨Option.map_eq_some_iff.mp hfile, fun _ => rfl⟩

/-- The bundled binary for a host, on the client's disk. -/
def World.bundle (world : World α) (store : ProbeStore) (remote : RemoteHost) : Option α :=
  remote.target.bind fun target => world.disk (store.binary target)

/-- A deployment from the platform on. -/
def deployTo (ext : Externals α) (store : ProbeStore) (opts : DeployOptions)
    (remote : RemoteHost) : Program α DeployReport :=
  (bundled store remote).attempt fun bytes =>
  (place ext opts remote bytes).attempt fun uploaded =>
  (hook ext opts remote).attempt fun hooks =>
  .done (.ok ⟨remote, remote.probePath opts.dir, uploaded, hooks⟩)

theorem deploy_eq (store : ProbeStore) (opts : DeployOptions) :
    deploy ext store opts = (detect ext).attempt (deployTo ext store opts) := rfl

theorem bundled_during {store : ProbeStore} {C : Files α → Prop} (hc : C before) :
    During ext world C (fun now r => now = before ∧
      ∀ bytes, r = .ok bytes → world.bundle store remote = some bytes)
      (bundled store remote) before := by
  rw [bundled]
  cases ht : remote.target with
  | none => exact During.done hc ⟨rfl, by simp⟩
  | some target =>
    refine During.ask hc fun v => ?_
    simp only [World.serve, World.bundle, ht, Option.bind_some]
    cases world.disk (store.binary target) with
    | none => exact During.done hc ⟨rfl, by simp⟩
    | some bytes => exact During.done hc ⟨rfl, by simp⟩

theorem hook_quiet (opts : DeployOptions) : (hook ext opts remote).Asks Op.Quiet := by
  rw [hook]
  split_ifs
  · refine ⟨trivial, fun a => ?_⟩
    cases a <;> trivial
  · trivial

/-- What a deployment may have done at any moment. -/
def Reached (ext : Externals α) (world : World α) (store : ProbeStore) (dir : String)
    (remote : RemoteHost) (before now : Files α) : Prop :=
  now = before ∨ ∃ bytes, world.bundle store remote = some bytes ∧
    Intact ext (binary dir remote) (ext.sha256Hex bytes) before now

/-- The bundled binary is in place. -/
def Installed (ext : Externals α) (world : World α) (store : ProbeStore) (dir : String)
    (remote : RemoteHost) (now : Files α) : Prop :=
  ∃ bytes, world.bundle store remote = some bytes ∧
    Holds ext (binary dir remote) (ext.sha256Hex bytes) now

/-- How a deployment ends. -/
def Finished (ext : Externals α) (world : World α) (store : ProbeStore) (dir : String)
    (remote : RemoteHost) (before now : Files α) : Except DeployError DeployReport → Prop
  | .ok report => Installed ext world store dir remote now ∧
      (report.uploaded = false → now = before)
  | .error _ => now[binary dir remote]? = before[binary dir remote]? ∨
      Aside (binary dir remote) before now ∨ Installed ext world store dir remote now

theorem deployTo_during {store : ProbeStore} {opts : DeployOptions}
    (hsees : world.Sees opts.dir remote) :
    During ext world (Reached ext world store opts.dir remote before)
      (Finished ext world store opts.dir remote before) (deployTo ext store opts remote)
      before := by
  refine During.attempt (bundled_during (.inl rfl)) ?_ ?_
  · rintro now e - ⟨rfl, -⟩
    exact .inl rfl
  rintro now bytes - ⟨rfl, hb⟩
  have hbundle := hb bytes rfl
  refine During.attempt ((place_during hsees).imp (fun _ h => .inr ⟨bytes, hbundle, h⟩)
    fun _ _ h => h) ?_ ?_
  · rintro mid e - ⟨h, -⟩
    exact h.imp_right .inl
  rintro mid uploaded hc ⟨hh, hsame⟩
  refine During.attempt (During.quiet (hook_quiet opts) hc) ?_ ?_
  · rintro _ e - rfl
    exact .inr (.inr ⟨bytes, hbundle, hh⟩)
  · rintro _ hooks hc rfl
    exact During.done hc ⟨⟨bytes, hbundle, hh⟩, fun hu => hsame (congrArg Except.ok hu)⟩

theorem detect_quiet : (detect ext).Asks Op.Quiet := by
  have hexec : ∀ cmd, (exec cmd : Program α ExecOutput).Asks Op.Quiet := by
    refine fun cmd => ⟨trivial, fun a => ?_⟩
    cases a <;> trivial
  have hdetected : ∀ {ρ : Type} (r : Except DetectError ρ),
      (detected ext r : Program α ρ).Asks Op.Quiet := by
    rintro ρ (e | r) <;> trivial
  refine (hexec _).attempt fun posix => (hdetected _).attempt ?_
  rintro (_ | ⟨os, arch, home⟩)
  · refine (hexec _).attempt fun os => Asks.attempt ?_ fun shell => ?_
    · rw [windowsShell]
      split <;> trivial
    · exact (hexec _).attempt fun out => (hdetected _).attempt fun _ => trivial
  · trivial

end Calls

/-- One deployment: the client's disk and the host's commands, and how the host serves it. -/
structure Call (α : Type) where
  world : World α
  store : ProbeStore
  opts : DeployOptions
  replies : List (Reply α)

section Runs

variable {α : Type} (ext : Externals α)

def Call.run (call : Call α) (files : Files α) :
    Run (Ans (α := α)) (Files α) (Except DeployError DeployReport) :=
  (deploy ext call.store call.opts).run (call.world.serve ext) files call.replies

/-- The platform that a deployment finds. -/
def Call.Finds (call : Call α) (files : Files α) (remote : RemoteHost) : Prop :=
  ((detect ext).run (call.world.serve ext) files call.replies).result = some (.ok remote)

/-- What a deployment finds is the host whose binary is at `target`. -/
def Call.At (call : Call α) (target : String) : Prop :=
  ∀ files remote, call.Finds ext files remote →
    call.world.Sees call.opts.dir remote ∧ binary call.opts.dir remote = target

/-- The files after some deployments, each of them cut or not. -/
def after (calls : List (Call α)) (files : Files α) : Files α :=
  calls.foldl (fun files call => (call.run ext files).state) files

variable {ext} {call : Call α} {calls : List (Call α)} {target : String} {files : Files α}

/-- Detection is all that was run, or it led to the rest. -/
theorem Call.run_cases (call : Call α) (files : Files α) :
    ((call.run ext files).state = files ∧
      ∀ report, (call.run ext files).result ≠ some (.ok report)) ∨
    ∃ remote n, call.Finds ext files remote ∧
      let rest := (deployTo ext call.store call.opts remote).run (call.world.serve ext) files
        (call.replies.drop n)
      (call.run ext files).state = rest.state ∧ (call.run ext files).result = rest.result := by
  have hstate : ((detect ext).run (call.world.serve ext) files call.replies).state = files :=
    ((During.quiet (C := (· = files)) detect_quiet rfl []).run call.replies).1
  rw [Call.run, deploy_eq, run_attempt]
  cases hr : ((detect ext).run (call.world.serve ext) files call.replies).result with
  | none => exact .inl ⟨hstate, by simp⟩
  | some r =>
    cases r with
    | error e => exact .inl ⟨hstate, by simp⟩
    | ok remote => exact .inr ⟨remote, _, hr, by rw [hstate], by rw [hstate]⟩

/-- What one deployment does, wherever it is cut and whatever fails. -/
theorem Call.run_spec (hat : call.At ext target) (files : Files α) :
    let r := call.run ext files
    (r.state = files ∧ ∀ report, r.result ≠ some (.ok report)) ∨
      ∃ remote, call.Finds ext files remote ∧ binary call.opts.dir remote = target ∧
        Reached ext call.world call.store call.opts.dir remote files r.state ∧
        ∀ result, r.result = some result →
          Finished ext call.world call.store call.opts.dir remote files r.state result := by
  intro r
  rcases call.run_cases files with h | ⟨remote, n, hf, hstate, hresult⟩
  · exact .inl h
  · obtain ⟨hsees, hb⟩ := hat files remote hf
    have hduring : During ext call.world _ _ (deployTo ext call.store call.opts remote) files :=
      deployTo_during hsees
    have hrun := (hduring []).run (call.replies.drop n)
    refine .inr ⟨remote, hf, hb, ?_, ?_⟩
    · rw [hstate]
      exact hrun.1
    · rw [hstate, hresult]
      exact hrun.2

/-- The hashes of the binaries that some deployments may put in place. -/
def Bundles (ext : Externals α) (calls : List (Call α)) (hash : String) : Prop :=
  ∃ call ∈ calls, ∃ remote bytes, call.world.bundle call.store remote = some bytes ∧
    ext.sha256Hex bytes = hash

theorem after_concat (calls : List (Call α)) (call : Call α) (files : Files α) :
    after ext (calls ++ [call]) files = (call.run ext (after ext calls files)).state := by
  simp [after]

/-- What one deployment leaves at the binary's path. -/
theorem Call.run_binary (hat : call.At ext target) (files : Files α) :
    SameElsewhere target files (call.run ext files).state ∧
      ∀ content, (call.run ext files).state[target]? = some content →
        files[target]? = some content ∨ Bundles ext [call] (ext.sha256Hex content) := by
  have hsame : (call.run ext files).state = files →
      SameElsewhere target files (call.run ext files).state ∧
        ∀ content, (call.run ext files).state[target]? = some content →
          files[target]? = some content ∨ Bundles ext [call] (ext.sha256Hex content) := by
    intro hs
    rw [hs]
    exact ⟨fun _ _ _ _ => rfl, fun _ hc => .inl hc⟩
  rcases call.run_spec hat files with ⟨hs, -⟩ | ⟨remote, -, rfl, hs | ⟨bytes, hb, hi⟩, -⟩
  · exact hsame hs
  · exact hsame hs
  · refine ⟨hi.elsewhere, fun content hc => ?_⟩
    rcases hi.binary with h | ⟨h, -⟩ | ⟨content', h, hd⟩
    · exact .inl (h ▸ hc)
    · rw [h] at hc
      cases hc
    · cases hc.symm.trans h
      exact .inr ⟨call, by simp, remote, bytes, hb, hd.symm⟩

theorem Bundles.mono {calls' : List (Call α)} {hash : String} (h : Bundles ext calls hash)
    (hsub : calls ⊆ calls') : Bundles ext calls' hash := by
  obtain ⟨call, hc, rest⟩ := h
  exact ⟨call, hsub hc, rest⟩

/-- The binary is never a torn upload. -/
theorem after_binary (hat : ∀ call ∈ calls, call.At ext target) (files : Files α) :
    SameElsewhere target files (after ext calls files) ∧
      ∀ content, (after ext calls files)[target]? = some content →
        files[target]? = some content ∨ Bundles ext calls (ext.sha256Hex content) := by
  induction calls using List.reverseRecOn with
  | nil => exact ⟨fun _ _ _ _ => rfl, fun _ hc => .inl hc⟩
  | append_singleton calls call ih =>
    obtain ⟨hsame, hbinary⟩ := ih fun c hc => hat c (by simp [hc])
    obtain ⟨hsame', hbinary'⟩ := call.run_binary (hat call (by simp)) (after ext calls files)
    rw [after_concat]
    refine ⟨sameElsewhere_trans hsame hsame', fun content hc => ?_⟩
    rcases hbinary' content hc with h | h
    · exact (hbinary content h).imp_right fun hb => hb.mono (List.subset_append_left _ _)
    · exact .inr (h.mono (List.subset_append_right _ _))

end Runs

section Again

variable {α : Type} {ext : Externals α} {world : World α} {remote : RemoteHost} {bytes : α}
  {files : Files α} {vs : List (Reply α)}

/-- The hash of a file is printed. -/
def Reply.Prints (ext : Externals α) (v : Reply α) : Prop :=
  ∀ content, parseHash (v.printer.print (some (ext.sha256Hex content))).stdout =
    some (ext.sha256Hex content)

/-- A binary with the right hash is left alone. -/
theorem place_again {opts : DeployOptions} (hsees : world.Sees opts.dir remote)
    (hp : ∀ v ∈ vs, v.Prints ext)
    (hh : Holds ext (binary opts.dir remote) (ext.sha256Hex bytes) files) :
    let r := (place ext opts remote bytes).run (world.serve ext) files vs
    r.state = files ∧ ∀ uploaded, r.result = some (.ok uploaded) → uploaded = false := by
  cases vs with
  | nil => exact ⟨rfl, by simp [place, exec]⟩
  | cons v vs =>
    obtain ⟨content, hc, hd⟩ := hh
    have hout : parseHash (world.output ext files
        (remote.hashCommand (remote.probePath opts.dir)) v).stdout =
          some (ext.sha256Hex bytes) := by
      rw [World.output, hsees.ofBinary]
      simpa only [hc, Option.map_some, hd] using hp v (by simp) content
    simp only [place, exec, attempt_ask, run_ask_cons, World.serve, answer]
    cases v.file.fails with
    | true => simp [overSsh]
    | false => simp [overSsh, hout]

theorem deployTo_again {store : ProbeStore} {opts : DeployOptions}
    (hsees : world.Sees opts.dir remote) (hp : ∀ v ∈ vs, v.Prints ext)
    (hh : ∀ bytes, world.bundle store remote = some bytes →
      Holds ext (binary opts.dir remote) (ext.sha256Hex bytes) files) :
    let r := (deployTo ext store opts remote).run (world.serve ext) files vs
    r.state = files ∧ ∀ report, r.result = some (.ok report) → report.uploaded = false := by
  have hb : During ext world (· = files) _ (bundled store remote) files := bundled_during rfl
  refine attempt_keeps ((hb []).run vs).1 fun bytes hr => ?_
  have hhash := hh bytes ((((hb []).run vs).2 _ hr).2 bytes rfl)
  have hplace := fun n => place_again hsees
    (fun v (hv : v ∈ vs.drop n) => hp v (List.mem_of_mem_drop hv)) hhash
  refine attempt_keeps (hplace _).1 fun uploaded hr => ?_
  have hhook : During ext world (· = files) _ (hook ext opts remote) files :=
    During.quiet (hook_quiet opts) rfl
  refine attempt_keeps ((hhook []).run _).1 fun hooks _ => ?_
  rw [run_done]
  refine ⟨rfl, fun report h => ?_⟩
  cases h
  exact (hplace _).2 uploaded hr

end Again

namespace Example

/-- A stand-in for the hash. -/
def ext : Externals String where
  sha256Hex content := String.ofList (List.replicate 64 (if content = "new" then 'a' else 'b'))
  hookResult _ := none
  debug := String.ofList
  debugLines _ := ""

/-- A host that prints a hash on a line of its own. -/
def printer : Printer where
  print
    | none => ⟨some 1, [], []⟩
    | some hash =>
      if parseHash (hash ++ "\n").toList = some hash then ⟨some 0, (hash ++ "\n").toList, []⟩
      else ⟨some 1, [], []⟩
  honest hash found h := by
    have hnone : parseHash [] = none := by decide
    cases hash with
    | none => simp [hnone] at h
    | some hash =>
      dsimp only at h
      split_ifs at h with hp
      · exact hp.symm.trans h
      · simp [hnone] at h

def world : World String where
  disk _ := some "new"
  hashed
    | "sha256sum '/home/u/.mai/bin/mai-probe'" => some ".mai/bin/mai-probe"
    | "sha256sum '/home/u/.mai/bin/mai-probe.upload'" => some ".mai/bin/mai-probe.upload"
    | _ => none

def reply : Reply String where
  file := ⟨false, ⟨.other, ""⟩, true, []⟩
  sshError := .channel ""
  output := ⟨some 0, "MAI-DETECT-BEGIN\nLinux x86_64\n/home/u\nMAI-DETECT-END\n".toList, []⟩
  printer := printer
  found := true
  left := some "new"
  closed := false
  stamp := 0

/-- A deployment that is served twenty operations. -/
def call : Call String := ⟨world, ⟨"/app"⟩, ⟨".mai", false, ""⟩, List.replicate 20 reply⟩

def old : Files String := (∅ : Files String).insert ".mai/bin/mai-probe" "old"

theorem call_finds {files : Files String} {remote : RemoteHost} (h : call.Finds ext files remote) :
    remote = ⟨⟨.linux, .posix⟩, "x86_64", "/home/u"⟩ := by
  have hparse : parsePosixDetect reply.output.stdout =
      .ok (some (.linux, "x86_64", "/home/u".toList)) := by
    decide
  have hout : world.output ext files posixDetectCommand reply = reply.output := rfl
  have hfails : reply.file.fails = false := rfl
  simp only [Call.Finds, call, List.replicate_succ, detect, exec, attempt_ask, run_ask_cons,
    World.serve, answer, hfails, hout, Bool.false_eq_true, if_false, overSsh, attempt_ok, hparse,
    detected, run_done, Option.some.injEq, Except.ok.injEq] at h
  rw [← h]
  rfl

theorem call_at : call.At ext ".mai/bin/mai-probe" := by
  intro files remote h
  rw [call_finds h]
  exact ⟨⟨rfl, rfl⟩, rfl⟩

def report : DeployReport :=
  ⟨⟨⟨.linux, .posix⟩, "x86_64", "/home/u"⟩, "/home/u/.mai/bin/mai-probe", true, []⟩

def new : Files String := (∅ : Files String).insert ".mai/bin/mai-probe" "new"

theorem reply_prints : reply.Prints ext := by
  intro content
  simp only [ext]
  split_ifs
  · decide
  · decide

theorem new_holds {remote : RemoteHost} {bytes : String}
    (h : world.bundle ⟨"/app"⟩ remote = some bytes) :
    Holds ext ".mai/bin/mai-probe" (ext.sha256Hex bytes) new := by
  obtain ⟨target, -, hb⟩ := Option.bind_eq_some_iff.mp h
  cases hb
  exact ⟨"new", by simp [new], rfl⟩

end Example

end MultiAi.Deploy
