import MultiAi.Deploy.Intact
import MultiAi.Library.Log

/-! # The order of a deployment

Whatever a host answers, nothing of it is touched unless the hash that it prints differs from the
bundled one, and the upload is put in place only right after the host printed the right hash for
it.
-/

namespace MultiAi.Deploy

open Asking Detect

section Conditions

variable {α : Type} (ext : Externals α) (opts : DeployOptions) (remote : RemoteHost) (bytes : α)
  (h : List (DeployEvent α))

/-- An operation that changes files of the host. -/
def Op.Touches : Op α → Prop
  | .createDir _ | .create _ | .writeAll .. | .shutdown _ | .setMode .. | .file (.remove _)
  | .file (.rename ..) => True
  | _ => False

/-- What the host printed for the binary. -/
def Printed (hash : Option String) : Prop := ∃ out : ExecOutput,
  ⟨.exec (remote.hashCommand (remote.probePath opts.dir)), .ok out⟩ ∈ h ∧
    parseHash out.stdout = hash

/-- The host printed another hash than the bundled one, or none. -/
def Differs : Prop := ∃ hash, Printed opts remote h hash ∧ hash ≠ some (ext.sha256Hex bytes)

/-- The upload was put in place. -/
def PutIn : Prop :=
  ⟨.file (.rename (binary opts.dir remote ++ ".upload") (binary opts.dir remote)), .ok ()⟩ ∈ h

/-- Whether the last thing that was done with the upload is that the host printed the bundled
hash for it. -/
def checkedStep (checked : Bool) : DeployEvent α → Bool
  | ⟨.exec command, .ok out⟩ =>
    if command = remote.hashCommand (remote.probePath opts.dir ++ ".upload") then
      decide (parseHash out.stdout = some (ext.sha256Hex bytes))
    else checked
  | ⟨.create _, _⟩ | ⟨.writeAll .., _⟩ | ⟨.shutdown _, _⟩ => false
  | _ => checked

def Checked : Prop := h.foldl (checkedStep ext opts remote bytes) false = true

/-- When an operation may be asked for. -/
def Allowed (op : Op α) : Prop :=
  (op.Touches → Differs ext opts remote bytes h) ∧
  (op = .file (.rename (binary opts.dir remote ++ ".upload") (binary opts.dir remote)) →
    Checked ext opts remote bytes h) ∧
  (op = .exec (remote.invoke (remote.probePath opts.dir) (stopArgs opts.client)) →
    (∃ other ≠ ext.sha256Hex bytes, Printed opts remote h (some other)) ∧
      ∀ e ∈ h, ¬ e.1.Touches) ∧
  (op = .exec (remote.invoke (remote.probePath opts.dir) "install-hooks") → opts.installHooks ∧
    (Printed opts remote h (some (ext.sha256Hex bytes)) ∨ PutIn opts remote h))

/-- Each operation is allowed where it is asked for. -/
def Orderly : Prop := ∀ before e after, h = before ++ e :: after →
  Allowed ext opts remote bytes before e.1

/-- What the uploaded bit of a report says. -/
def Says (uploaded : Bool) : Prop :=
  if uploaded then PutIn opts remote h
  else Printed opts remote h (some (ext.sha256Hex bytes)) ∧ ∀ e ∈ h, ¬ e.1.Touches

/-- How a deployment ends. -/
def Reports : Except DeployError DeployReport → Prop
  | .ok report => Says ext opts remote bytes h report.uploaded
  | .error _ => True

/-- Finding the platform and the bundled binary. -/
def Op.Looks : Op α → Prop
  | .read _ => True
  | .exec command => command = posixDetectCommand ∨ command = "echo %OS%" ∨
      ∃ shell, command = windowsDetectCommand shell
  | _ => False

/-- A host that answers anything. -/
def said (op : Op α) (_ : Unit) (v : (op : Op α) → Ans op) : Ans op × Unit := (v op, ())

end Conditions

section Commands

variable (remote : RemoteHost) (path args : String)

theorem head_hashCommand : (remote.hashCommand path).toList.head? = some 's' ∨
    (remote.hashCommand path).toList.head? = some 'c' ∨
    (remote.hashCommand path).toList.head? = some '(' := by
  obtain ⟨⟨os, shell⟩, arch, home⟩ := remote
  cases os <;> cases shell <;> simp [RemoteHost.hashCommand]

theorem head_invoke : (remote.invoke path args).toList.head? = some '\x27' ∨
    (remote.invoke path args).toList.head? = some '\x22' ∨
    (remote.invoke path args).toList.head? = some '&' := by
  obtain ⟨⟨os, shell⟩, arch, home⟩ := remote
  cases shell <;> simp [Remote.invoke, shQuote]

variable {remote path args} {other args' client : String}

theorem hashCommand_ne : remote.hashCommand path ≠ remote.invoke other args := by
  intro h
  have hhash := head_hashCommand remote path
  rw [h] at hhash
  rcases head_invoke remote other args with hi | hi | hi <;>
    rw [hi] at hhash <;> simp at hhash

theorem invoke_inj (h : remote.invoke path args = remote.invoke path args') : args = args' := by
  obtain ⟨⟨os, shell⟩, arch, home⟩ := remote
  cases shell <;> simpa [Remote.invoke] using h

theorem stopArgs_ne : stopArgs client ≠ "install-hooks" := by
  intro h
  have hhead := congrArg (fun s : String => s.toList.head?) h
  simp only [stopArgs, stopArgv, clientArgv] at hhead
  split at hhead <;> simp at hhead

end Commands

section Steps

variable {α ρ τ : Type} {ext : Externals α} {opts : DeployOptions} {remote : RemoteHost} {bytes : α}
  {h : List (DeployEvent α)} {op : Op α}

theorem Orderly.nil : Orderly ext opts remote bytes [] :=
  Log.each_nil (R := fun before (e : DeployEvent α) => Allowed ext opts remote bytes before e.1)

theorem Orderly.concat (ho : Orderly ext opts remote bytes h)
    (ha : Allowed ext opts remote bytes h op) (a : Ans op) :
    Orderly ext opts remote bytes (h ++ [⟨op, a⟩]) :=
  (Log.each_concat (R := fun before (e : DeployEvent α) =>
    Allowed ext opts remote bytes before e.1)).mpr ⟨ho, ha⟩

theorem Printed.mono {h' : List (DeployEvent α)} {hash : Option String}
    (hp : Printed opts remote h hash) (hsub : h ⊆ h') : Printed opts remote h' hash := by
  obtain ⟨out, hm, hh⟩ := hp
  exact ⟨out, hsub hm, hh⟩

theorem Differs.concat (hd : Differs ext opts remote bytes h) (e : DeployEvent α) :
    Differs ext opts remote bytes (h ++ [e]) := by
  obtain ⟨hash, hp, hne⟩ := hd
  exact ⟨hash, hp.mono (List.subset_append_left _ _), hne⟩

/-- An operation on the files other than a rename, or one that changes none. -/
def Op.Plain : Op α → Prop
  | .exec _ | .file (.rename ..) => False
  | _ => True

theorem Allowed.of_plain (hop : op.Plain) (hd : Differs ext opts remote bytes h) :
    Allowed ext opts remote bytes h op := by
  refine ⟨fun _ => hd, ?_, ?_, ?_⟩
  · rintro rfl
    cases hop
  · rintro rfl
    cases hop
  · rintro rfl
    cases hop

theorem Allowed.hash (path : String) :
    Allowed ext opts remote bytes h (.exec (remote.hashCommand path)) := by
  refine ⟨False.elim, by simp, fun heq => ?_, fun heq => ?_⟩
  · exact absurd (Op.exec.inj heq) hashCommand_ne
  · exact absurd (Op.exec.inj heq) hashCommand_ne

variable (ext opts remote bytes) in
/-- Whatever is answered, a program that starts after `h` is orderly and ends where `Q` holds. -/
def Follows (Q : List (DeployEvent α) → Except DeployError ρ → Prop) (p : Program α ρ)
    (h : List (DeployEvent α)) : Prop :=
  p.Safe said (fun h _ => Orderly ext opts remote bytes h) (fun h _ r => Q h r) h ()

variable {Q : List (DeployEvent α) → Except DeployError ρ → Prop}
  {R : List (DeployEvent α) → Except DeployError τ → Prop}

theorem Follows.attempt {p : Program α ρ} {f : ρ → Program α τ}
    (hp : Follows ext opts remote bytes Q p h)
    (herr : ∀ h e, Q h (.error e) → R h (.error e))
    (hok : ∀ h r, Q h (.ok r) → Follows ext opts remote bytes R (f r) h) :
    Follows ext opts remote bytes R (p.attempt f) h := by
  refine Safe.attempt (hp.mono ?_)
  rintro h ⟨⟩ (e | r) hq
  · exact herr h e hq
  · exact hok h r hq

theorem Follows.exec {command : String} {f : ExecOutput → Program α τ}
    (ho : Orderly ext opts remote bytes h) (ha : Allowed ext opts remote bytes h (.exec command))
    (herr : ∀ e, R (h ++ [⟨.exec command, .error e⟩]) (.error (.ssh e)))
    (hok : ∀ out, Orderly ext opts remote bytes (h ++ [⟨.exec command, .ok out⟩]) →
      Follows ext opts remote bytes R (f out) (h ++ [⟨.exec command, .ok out⟩])) :
    Follows ext opts remote bytes R ((exec command).attempt f) h := by
  refine ⟨ho, fun v => ?_⟩
  simp only [said]
  cases v (.exec command) with
  | error e => exact ⟨ho.concat ha _, herr e⟩
  | ok out => exact hok out (ho.concat ha _)

/-- A program that asks for plain operations, after the hash was seen to differ. -/
theorem Follows.plain {p : Program α ρ} (hp : p.Asks Op.Plain)
    (ho : Orderly ext opts remote bytes h) (hd : Differs ext opts remote bytes h) :
    Follows ext opts remote bytes (fun h _ => Orderly ext opts remote bytes h ∧
      Differs ext opts remote bytes h) p h :=
  hp.safe (I := fun h _ => Orderly ext opts remote bytes h ∧ Differs ext opts remote bytes h)
    ⟨ho, hd⟩ (fun _ _ _ _ hop hi => ⟨hi.1.concat (.of_plain hop hi.2) _, hi.2.concat _⟩)
    fun _ _ hi => hi.1

end Steps

section Programs

variable {α : Type} {ext : Externals α} {opts : DeployOptions} {remote : RemoteHost} {bytes : α}
  {h : List (DeployEvent α)}

theorem uploading_plain {ρ : Type} (r : Except (IoError IoKind) ρ) :
    (uploading r : Program α ρ).Asks Op.Plain :=
  (uploading_asks r).mono fun _ hop => hop ▸ trivial

theorem makeDirs_plain (path : String) (parts : List String) :
    (makeDirs path parts : Program α Unit).Asks Op.Plain := by
  induction parts generalizing path with
  | nil => trivial
  | cons part parts ih =>
    refine ⟨trivial, fun found => (uploading_plain found).attempt ?_⟩
    rintro (_ | _)
    · exact ⟨trivial, fun made => (uploading_plain made).attempt fun _ => ih _⟩
    · exact ih _

theorem write_plain (remote : RemoteHost) (tmp : String) (bytes : α) :
    (write remote tmp bytes).Asks Op.Plain := by
  refine ⟨trivial, fun created => (uploading_plain created).attempt fun () => ?_⟩
  refine ⟨trivial, fun written => (uploading_plain written).attempt fun () => ?_⟩
  refine ⟨trivial, fun closed => (uploading_plain closed).attempt fun () => ?_⟩
  split
  · trivial
  · exact ⟨trivial, uploading_plain⟩

theorem reject_follows (ho : Orderly ext opts remote bytes h)
    (hd : Differs ext opts remote bytes h) (tmp text : String) :
    Follows ext opts remote bytes (fun h r => Orderly ext opts remote bytes h ∧
      Differs ext opts remote bytes h ∧ ∀ a, r = .ok a → Checked ext opts remote bytes h)
      (reject tmp text) h := by
  have hop : (Op.file (.remove tmp) : Op α).Plain := trivial
  have ho' := fun a => ho.concat (.of_plain hop hd) a
  exact ⟨ho, fun v => ⟨ho' _, ho' _, hd.concat _, by simp⟩⟩

/-- The right hash for the upload is the last thing that happened to it. -/
theorem verify_follows (ho : Orderly ext opts remote bytes h)
    (hd : Differs ext opts remote bytes h) (tmp : String) :
    Follows ext opts remote bytes (fun h r => Orderly ext opts remote bytes h ∧
        Differs ext opts remote bytes h ∧ ∀ a, r = .ok a → Checked ext opts remote bytes h)
      (verify ext remote opts.dir bytes tmp) h := by
  refine Follows.exec ho (.hash _) (fun e => ⟨ho.concat (.hash _) _, hd.concat _, by simp⟩) ?_
  intro out ho
  cases hp : parseHash out.stdout with
  | none => exact reject_follows ho (hd.concat _) tmp _
  | some written =>
    dsimp only
    split_ifs with hw
    · exact reject_follows ho (hd.concat _) tmp _
    · refine ⟨ho, ho, hd.concat _, fun _ _ => ?_⟩
      simp [Checked, checkedStep, hp, not_not.mp hw]

/-- A host that answers file operations in any way. -/
def saidFile (op : FileOp) (_ : Unit) (v : (op : FileOp) → Answered IoKind op) :
    Answered IoKind op × Unit :=
  (v op, ())

/-- A swap that works has renamed the upload into place. -/
theorem swapIn_puts (dir exe : String) (stamp : ℕ) (h : List (Event (Answered IoKind))) :
    (swapIn dir exe stamp).Safe saidFile (fun _ _ => True) (fun h _ r => r = .ok () →
      ⟨.rename (dir ++ "/" ++ exe ++ ".upload") (dir ++ "/" ++ exe), .ok ()⟩ ∈ h) h () := by
  refine Safe.bind ((Safe.trivial _ _ _).mono fun h _ _ _ => ?_)
  refine Safe.bind ((Safe.trivial _ _ _).mono ?_)
  rintro h ⟨⟩ (e | aside) -
  · exact ⟨trivial, by simp⟩
  refine ⟨trivial, fun v => ?_⟩
  simp only [saidFile]
  cases v (.rename (dir ++ "/" ++ exe ++ ".upload") (dir ++ "/" ++ exe)) with
  | error e =>
    cases aside with
    | none => exact ⟨trivial, by simp⟩
    | some name =>
      refine ⟨trivial, fun w => ?_⟩
      simp only [saidFile]
      cases w (.rename name (dir ++ "/" ++ exe)) with
      | error re => exact ⟨trivial, by simp⟩
      | ok a => exact ⟨trivial, by simp⟩
  | ok a =>
    cases aside with
    | none => exact ⟨trivial, by simp⟩
    | some name => exact ⟨trivial, fun w => ⟨trivial, by simp⟩⟩

theorem Checked.file (hc : Checked ext opts remote bytes h) (op : FileOp) (a : Answered IoKind op) :
    Checked ext opts remote bytes (h ++ [⟨.file op, a⟩]) := by
  rw [Checked, List.foldl_append]
  exact hc

theorem Allowed.file (hd : Differs ext opts remote bytes h)
    (hc : Checked ext opts remote bytes h) (op : FileOp) :
    Allowed ext opts remote bytes h (.file op) :=
  ⟨fun _ => hd, fun _ => hc, by simp, by simp⟩

theorem swap_follows (ho : Orderly ext opts remote bytes h)
    (hd : Differs ext opts remote bytes h) (hc : Checked ext opts remote bytes h) :
    Follows ext opts remote bytes (fun h r => Orderly ext opts remote bytes h ∧
        ∀ a, r = .ok a → PutIn opts remote h)
      (swap (opts.dir ++ "/bin") remote.exeName) h := by
  have ha : Allowed ext opts remote bytes h .nowMs := .of_plain trivial hd
  refine ⟨ho, fun v => Safe.bind ?_⟩
  refine Safe.lift (C := fun _ _ => True) (fun files _ h _ => Orderly ext opts remote bytes h ∧
    Differs ext opts remote bytes h ∧ Checked ext opts remote bytes h ∧
      ∀ op a, ⟨op, a⟩ ∈ files → ⟨.file op, a⟩ ∈ h) ?_ ?_ ?_
    (swapIn_puts (opts.dir ++ "/bin") remote.exeName (v .nowMs) []) ?_
  · rintro files ⟨⟩ h ⟨⟩ op v ⟨ho, hd, hc, hf⟩
    refine ⟨fun op => v (.file op), rfl, ho.concat (.file hd hc op) _, hd.concat _,
      hc.file op _, ?_⟩
    intro op' a hm
    rcases List.mem_append.mp hm with hm | hm
    · exact List.mem_append_left _ (hf op' a hm)
    · cases List.mem_singleton.mp hm
      exact List.mem_append_right _ (List.mem_singleton_self _)
  · exact fun _ _ _ _ hr _ => hr.1
  · rintro files ⟨⟩ h ⟨⟩ (e | ⟨⟩) ⟨ho, hd, hc, hf⟩ hq
    · exact ⟨ho, ho, by simp⟩
    · exact ⟨ho, ho, fun _ _ => hf _ _ (hq rfl)⟩
  · refine ⟨ho.concat ha _, hd.concat _, ?_, by simp⟩
    rw [Checked, List.foldl_append]
    exact hc

theorem upload_follows (ho : Orderly ext opts remote bytes h)
    (hd : Differs ext opts remote bytes h) :
    Follows ext opts remote bytes (fun h r => Orderly ext opts remote bytes h ∧
      ∀ a, r = .ok a → PutIn opts remote h) (upload ext remote opts.dir bytes) h := by
  have ha : Allowed ext opts remote bytes h .sftp := .of_plain trivial hd
  refine ⟨ho, fun v => ?_⟩
  have ho' := ho.concat ha (v .sftp)
  refine Follows.attempt (p := overSsh (v .sftp)) (Q := fun h _ => Orderly ext opts remote bytes h ∧
    Differs ext opts remote bytes h) ?_ (fun h e hq => ⟨hq.1, by simp⟩) ?_
  · cases v .sftp <;> exact ⟨ho', ho', hd.concat _⟩
  rintro h ⟨⟩ ⟨ho, hd⟩
  refine Follows.attempt (.plain (makeDirs_plain _ _) ho hd) (fun h e hq => ⟨hq.1, by simp⟩) ?_
  rintro h ⟨⟩ ⟨ho, hd⟩
  refine Follows.attempt (.plain (write_plain _ _ _) ho hd) (fun h e hq => ⟨hq.1, by simp⟩) ?_
  rintro h ⟨⟩ ⟨ho, hd⟩
  refine Follows.attempt (verify_follows ho hd _) (fun h e hq => ⟨hq.1, by simp⟩) ?_
  exact fun h _ ⟨ho, hd, hc⟩ => swap_follows ho hd (hc () rfl)

theorem stop_follows (ho : Orderly ext opts remote bytes h)
    (hd : Differs ext opts remote bytes h) (hno : ∀ e ∈ h, ¬ e.1.Touches) {found : Bool}
    (hf : found = true → ∃ other ≠ ext.sha256Hex bytes, Printed opts remote h (some other)) :
    Follows ext opts remote bytes (fun h _ => Orderly ext opts remote bytes h ∧
      Differs ext opts remote bytes h)
      (stop remote (remote.probePath opts.dir) opts.client found) h := by
  cases found with
  | false => exact ⟨ho, ho, hd⟩
  | true =>
    have ha : Allowed ext opts remote bytes h
        (.exec (remote.invoke (remote.probePath opts.dir) (stopArgs opts.client))) :=
      ⟨False.elim, by simp, fun _ => ⟨hf rfl, hno⟩,
        fun heq => absurd (invoke_inj (Op.exec.inj heq)) stopArgs_ne⟩
    exact ⟨ho, fun v => ⟨ho.concat ha _, ho.concat ha _, hd.concat _⟩⟩

theorem place_follows : Follows ext opts remote bytes (fun h r => Orderly ext opts remote bytes h ∧
    ∀ uploaded, r = .ok uploaded → Says ext opts remote bytes h uploaded)
    (place ext opts remote bytes) [] := by
  refine Follows.exec .nil (.hash _) (fun e => ⟨Orderly.nil.concat (.hash _) _, by simp⟩) ?_
  intro out ho
  rw [List.nil_append] at ho ⊢
  have hp : Printed opts remote
      [(⟨.exec (remote.hashCommand (remote.probePath opts.dir)), .ok out⟩ : DeployEvent α)]
      (parseHash out.stdout) :=
    ⟨out, by simp, rfl⟩
  have hno : ∀ e ∈ [(⟨.exec (remote.hashCommand (remote.probePath opts.dir)), .ok out⟩ :
      DeployEvent α)], ¬ e.1.Touches := by
    simp [Op.Touches]
  dsimp only
  split_ifs with hh
  · refine Follows.attempt (stop_follows ho ⟨_, hp, hh⟩ hno ?_) (fun h e hq => ⟨hq.1, by simp⟩) ?_
    · intro hsome
      obtain ⟨other, ho⟩ := Option.isSome_iff_exists.mp hsome
      exact ⟨other, fun heq => hh (heq ▸ ho), ho ▸ hp⟩
    rintro h ⟨⟩ ⟨ho, hd⟩
    refine Follows.attempt (upload_follows ho hd) (fun h e hq => ⟨hq.1, by simp⟩) ?_
    rintro h ⟨⟩ ⟨ho, hput⟩
    exact ⟨ho, ho, fun uploaded hr => by cases hr; exact hput () rfl⟩
  · refine ⟨ho, ho, fun uploaded hr => ?_⟩
    cases hr
    exact ⟨not_not.mp hh ▸ hp, hno⟩

theorem Says.concat {uploaded : Bool} (hs : Says ext opts remote bytes h uploaded)
    {e : DeployEvent α} (he : ¬ e.1.Touches) : Says ext opts remote bytes (h ++ [e]) uploaded := by
  cases uploaded with
  | true => exact List.mem_append_left _ hs
  | false =>
    refine ⟨hs.1.mono (List.subset_append_left _ _), fun e' hm => ?_⟩
    rcases List.mem_append.mp hm with hm | hm
    · exact hs.2 e' hm
    · exact List.mem_singleton.mp hm ▸ he

theorem hook_follows {uploaded : Bool} (ho : Orderly ext opts remote bytes h)
    (hs : Says ext opts remote bytes h uploaded) :
    Follows ext opts remote bytes (fun h _ => Orderly ext opts remote bytes h ∧
      Says ext opts remote bytes h uploaded) (hook ext opts remote) h := by
  rw [hook]
  split_ifs with hi
  · have ha : Allowed ext opts remote bytes h
        (.exec (remote.invoke (remote.probePath opts.dir) "install-hooks")) := by
      refine ⟨False.elim, by simp, fun heq => ?_, fun _ => ⟨hi, ?_⟩⟩
      · exact absurd (invoke_inj (Op.exec.inj heq)).symm stopArgs_ne
      · cases uploaded with
        | true => exact .inr hs
        | false => exact .inl hs.1
    refine Follows.exec ho ha (fun e => ⟨ho.concat ha _, hs.concat id⟩) fun out ho => ?_
    exact ⟨ho, ho, hs.concat id⟩
  · exact ⟨ho, ho, hs⟩

theorem placed_follows (ext : Externals α) (opts : DeployOptions) (remote : RemoteHost)
    (bytes : α) :
    Follows ext opts remote bytes (Reports ext opts remote bytes)
      ((place ext opts remote bytes).attempt fun uploaded =>
        (hook ext opts remote).attempt fun hooks =>
        .done (.ok ⟨remote, remote.probePath opts.dir, uploaded, hooks⟩)) [] := by
  refine Follows.attempt place_follows (fun h e _ => trivial) ?_
  rintro h uploaded ⟨ho, hs⟩
  refine Follows.attempt (hook_follows ho (hs uploaded rfl)) (fun h e _ => trivial) ?_
  exact fun h hooks hq => ⟨hq.1, hq.2⟩

/-- What detection and reading the bundled binary ask for. -/
theorem detect_looks (ext : Externals α) : (detect ext).Asks Op.Looks := by
  have hexec : ∀ cmd, (Op.exec cmd : Op α).Looks →
      (exec cmd : Program α ExecOutput).Asks Op.Looks := by
    refine fun cmd hop => ⟨hop, fun a => ?_⟩
    cases a <;> trivial
  have hdetected : ∀ {ρ : Type} (r : Except DetectError ρ),
      (detected ext r : Program α ρ).Asks Op.Looks := by
    rintro ρ (e | r) <;> trivial
  refine (hexec _ (.inl rfl)).attempt fun posix => (hdetected _).attempt ?_
  rintro (_ | ⟨os, arch, home⟩)
  · refine (hexec _ (.inr (.inl rfl))).attempt fun os => Asks.attempt ?_ fun shell => ?_
    · rw [windowsShell]
      split <;> trivial
    · exact (hexec _ (.inr (.inr ⟨shell, rfl⟩))).attempt fun out =>
        (hdetected _).attempt fun _ => trivial
  · trivial

theorem bundled_looks (store : ProbeStore) (remote : RemoteHost) :
    (bundled store remote : Program α α).Asks Op.Looks := by
  rw [bundled]
  cases remote.target with
  | none => trivial
  | some target =>
    refine ⟨trivial, fun a => ?_⟩
    cases a <;> trivial

end Programs

section Runs

variable {α ρ : Type}

theorem bundled_reads {store : ProbeStore} {remote : RemoteHost} {bytes : α}
    {vs : List ((op : Op α) → Ans op)}
    (h : ((bundled store remote).run said () vs).result = some (.ok bytes)) :
    ∃ target, remote.target = some target ∧
      ⟨.read (store.binary target), some bytes⟩ ∈
        ((bundled store remote).run said () vs).events := by
  rw [bundled] at h ⊢
  cases ht : remote.target with
  | none => simp [ht] at h
  | some target =>
    refine ⟨target, rfl, ?_⟩
    cases vs with
    | nil => simp [ht] at h
    | cons v vs =>
      simp only [ht, run_ask_cons, said] at h ⊢
      cases hv : v (.read (store.binary target)) with
      | none => simp [hv] at h
      | some bytes' =>
        simp only [hv, run_done, Option.some.injEq, Except.ok.injEq] at h
        simp [h]

end Runs

end MultiAi.Deploy
