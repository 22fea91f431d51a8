import MultiAi.Hooks.Keep
import MultiAi.Library.Asking
import MultiAi.Library.Disk
import MultiAi.Probe.HookMap

/-! # Editing a config file

A config is read, edited and written through a temporary file that is renamed over it, with a
copy of the old one beside it. Each operation may fail, and the process may die before any.
-/

namespace MultiAi.Hooks

open Asking

/-- The operations of an edit. -/
inductive ConfigOp where
  | read (path : Path)
  | symlinkMetadata (path : Path)
  | readLink (path : Path)
  | metadata (path : Path)
  | copy (source target : Path)
  | createDirAll (dir : List String)
  | write (path : Path) (text : String)
  | setPermissions (path : Path) (mode : ℕ)
  | rename (source target : Path)

/-- What an operation that works returns: whether there is a link, or the mode of a file. -/
abbrev ConfigOp.Result : ConfigOp → Type
  | .read _ => String
  | .symlinkMetadata _ => Bool
  | .readLink _ => Path
  | .metadata _ => ℕ
  | .copy .. | .createDirAll _ | .write .. | .setPermissions .. | .rename .. => Unit

abbrev ConfigAns (op : ConfigOp) : Type := Except FileError op.Result

inductive InstallError where
  | io (path : Path) (error : FileError)
  | parse (path : Path)
  | shape (path : Path) (what : String)
  deriving DecidableEq, Repr

inductive Outcome where
  | installed
  | removed
  | unchanged
  deriving DecidableEq, Repr

abbrev ConfigProgram (ρ : Type) := Asking ConfigOp ConfigAns (Except InstallError ρ)

/-- Go on with what an operation on behalf of a config returns. -/
def attempt {ρ : Type} (path : Path) (op : ConfigOp) (next : op.Result → ConfigProgram ρ) :
    ConfigProgram ρ :=
  .ask op fun
    | .ok r => next r
    | .error e => .done (.error (.io path e))

/-- The most links that are followed from a config. -/
def maxLinks : ℕ := 16

section Program

variable (parse : String → Option Json) (pretty : Json → String) (pid : ℕ)

/-- The document of a text; a blank one is empty. -/
def docOfText (text : String) : Option Json :=
  if HookMap.trim text.toList = [] then some (.obj []) else parse text

def readDoc (path : Path) : ConfigProgram Json :=
  .ask (.read path) fun
    | .ok text => .done <| match docOfText parse text with
      | some doc => .ok doc
      | none => .error (.parse path)
    | .error .notFound => .done (.ok (.obj []))
    | .error e => .done (.error (.io path e))

/-- The file that a write must replace, where so many links may be followed. -/
def writeTarget (path : Path) : ℕ → Path → ConfigProgram Path
  | 0, _ => .done (.error (.io path (.other "too many levels of symbolic links")))
  | links + 1, target =>
    .ask (.symlinkMetadata target) fun
      | .ok true => attempt path (.readLink target) fun link =>
        writeTarget path links (link.beside target)
      | _ => .done (.ok target)

def backup (target : Path) (nowMs : ℕ) : Path := target.suffixed s!".mai-bak-{nowMs}"

def temporary (target : Path) : Path := target.suffixed s!".mai-tmp-{pid}"

def docText (doc : Json) : String := pretty doc ++ "\n"

/-- Write a temporary file and rename it over the target, whose mode it gets. -/
def replace (path target : Path) (mode : Option ℕ) (text : String) : ConfigProgram Unit :=
  attempt path (.write (temporary pid target) text) fun _ =>
    let rename := attempt path (.rename (temporary pid target) target) fun _ => .done (.ok ())
    match mode with
    | some mode => attempt path (.setPermissions (temporary pid target) mode) fun _ => rename
    | none => rename

/-- Back up the file if there is one, then replace it. -/
def writeDoc (path : Path) (doc : Json) (nowMs : ℕ) : ConfigProgram Unit :=
  (writeTarget path maxLinks path).bind fun
    | .error e => .done (.error e)
    | .ok target =>
      .ask (.metadata target) fun
        | .ok mode => attempt path (.copy target (backup target nowMs)) fun _ =>
          replace pid path target (some mode) (docText pretty doc)
        | .error .notFound => attempt path (.createDirAll target.dir) fun _ =>
          replace pid path target none (docText pretty doc)
        | .error e => .done (.error (.io path e))

/-- Write an edited document, unless the edit changed nothing. -/
def writeChanged (path : Path) (nowMs : ℕ) (changed : Outcome) (before : Json) :
    Except String Json → ConfigProgram Outcome
  | .error what => .done (.error (.shape path what))
  | .ok after =>
    if after = before then .done (.ok .unchanged)
    else (writeDoc pretty pid path after nowMs).bind fun
      | .error e => .done (.error e)
      | .ok () => .done (.ok changed)

def apply (path : Path) (nowMs : ℕ) (changed : Outcome) (edit : Json → Except String Json) :
    ConfigProgram Outcome :=
  (readDoc parse path).bind fun
    | .error e => .done (.error e)
    | .ok before => writeChanged pretty pid path nowMs changed before (edit before)

/-- Install our hooks in a config, which is made if there is none. -/
def installFile (path : Path) (events : List (String × Bool)) (command : String) (nowMs : ℕ) :
    ConfigProgram Outcome :=
  apply parse pretty pid path nowMs .installed fun doc => mergeHooks doc events command

/-- Remove our hooks from a config. -/
def uninstallFile (path : Path) (nowMs : ℕ) : ConfigProgram Outcome :=
  .ask (.metadata path) fun
    | .ok _ => apply parse pretty pid path nowMs .removed removeHooks
    | .error _ => .done (.ok .unchanged)

end Program

/-- How an operation goes: it may fail, and it may break after so many bytes. -/
inductive Fate where
  | works
  | fails (text : String)
  | breaks (text : String) (written : ℕ)
  deriving DecidableEq, Repr

section Serving

variable (hops : ℕ)

/-- Put bytes in the file at a path. -/
def store (d : Disk) (p : Path) (bytes : ByteArray) (mode : ℕ) (fate : Fate) :
    Except FileError Unit × Disk :=
  match d.follow hops p with
  | none => (.error (.other "too many levels of symbolic links"), d)
  | some q =>
    match d.node q, fate with
    | some (.other _), _ => (.error (.other "not a file"), d)
    | _, .fails text => (.error (.other text), d)
    | _, .breaks text written =>
      (.error (.other text), d.write q ⟨bytes.extract 0 written, mode⟩)
    | _, .works => (.ok (), d.write q ⟨bytes, mode⟩)

/-- Copy a file: the other is empty first, and gets the bytes that are then in the first. -/
def copyFile (d : Disk) (source target : Path) (fate : Fate) : Except FileError Unit × Disk :=
  match d.content hops source, d.mode hops source, fate with
  | .error e, _, _ | _, .error e, _ => (.error e, d)
  | _, _, .fails text => (.error (.other text), d)
  | .ok _, .ok mode, _ =>
    match store hops d target .empty mode .works with
    | (.error e, d) => (.error e, d)
    | (.ok (), d) =>
      match d.content hops source with
      | .error e => (.error e, d)
      | .ok bytes => store hops d target bytes mode fate

/-- The file system serves an operation; `hops` links are followed on a path. -/
def serve : (op : ConfigOp) → Disk → Fate → ConfigAns op × Disk
  | .copy p q, d, fate => copyFile hops d p q fate
  | .write p text, d, fate =>
    let mode := match d.mode hops p with
      | .ok mode => mode
      | .error _ => 0o644
    store hops d p text.toUTF8 mode fate
  | _, d, .fails text | _, d, .breaks text _ => (.error (.other text), d)
  | .read p, d, .works =>
    (match d.content hops p with
      | .ok bytes => match String.fromUTF8? bytes with
        | some text => .ok text
        | none => .error (.other "stream did not contain valid UTF-8")
      | .error e => .error e, d)
  | .symlinkMetadata p, d, .works =>
    (match d.node p with
      | some (.link _) => .ok true
      | some _ => .ok false
      | none => .error .notFound, d)
  | .readLink p, d, .works =>
    (match d.node p with
      | some (.link dest) => .ok dest
      | _ => .error (.other "not a link"), d)
  | .metadata p, d, .works => (d.mode hops p, d)
  | .createDirAll _, d, .works => (.ok (), d)
  | .setPermissions p mode, d, .works =>
    match d.content hops p with
    | .ok bytes => store hops d p bytes mode .works
    | .error e => (.error e, d)
  | .rename p q, d, .works =>
    match d.node p, d.node q with
    | none, _ => (.error .notFound, d)
    | _, some (.other _) => (.error (.other "is a directory"), d)
    | _, _ => (.ok (), d.move p q)

end Serving

/-- The two edits. -/
inductive Edit where
  | install (events : List (String × Bool)) (command : String)
  | uninstall

def Edit.changed : Edit → Outcome
  | .install .. => .installed
  | .uninstall => .removed

def Edit.edit : Edit → Json → Except String Json
  | .install events command, doc => mergeHooks doc events command
  | .uninstall, doc => removeHooks doc

def Edit.file (parse : String → Option Json) (pretty : Json → String) (pid : ℕ) (path : Path)
    (nowMs : ℕ) : Edit → ConfigProgram Outcome
  | .install events command => installFile parse pretty pid path events command nowMs
  | .uninstall => uninstallFile parse pretty pid path nowMs

end MultiAi.Hooks
