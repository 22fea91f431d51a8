import MultiAi.Deploy.Detect
import MultiAi.Deploy.Swap
import MultiAi.Host.State
import MultiAi.Library.Lifting
import MultiAi.Protocol.Client

/-! # Deploying a probe

A host is asked for its platform and for the hash of its binary. Where that is not the hash of
the bundled one, the bundled one is uploaded, checked on the host and put in place; last the
hooks are installed. What the host answers is left open.
-/

namespace MultiAi.Deploy

open Detect HookMap

/-- A remote host with its CPU and its home, in its own syntax. -/
structure RemoteHost extends Remote where
  arch : String
  home : String

namespace RemoteHost

/-- The probe binary that a host needs. -/
def target (remote : RemoteHost) : Option String :=
  match remote.os, remote.arch with
  | .linux, "x86_64" => some "x86_64-unknown-linux-musl"
  | .linux, "aarch64" => some "aarch64-unknown-linux-musl"
  | .macOs, "x86_64" => some "x86_64-apple-darwin"
  | .macOs, "aarch64" => some "aarch64-apple-darwin"
  | .windows, "x86_64" => some "x86_64-pc-windows-msvc"
  | _, _ => none

def exeName (remote : RemoteHost) : String :=
  if remote.os = .windows then "mai-probe.exe" else "mai-probe"

/-- The absolute path of the probe. -/
def probePath (remote : RemoteHost) (dir : String) : String :=
  if remote.os = .windows then
    remote.home ++ "\\" ++ replaceChar dir '/' "\\" ++ "\\bin\\" ++ remote.exeName
  else remote.home ++ "/" ++ dir ++ "/bin/" ++ remote.exeName

/-- The command that prints the hash of a file. -/
def hashCommand (remote : RemoteHost) (path : String) : String :=
  match remote.os, remote.shell with
  | .macOs, _ => "shasum -a 256 " ++ shQuote path
  | _, .posix => "sha256sum " ++ shQuote path
  | _, .cmd => "certutil -hashfile \x22" ++ path ++ "\x22 SHA256"
  | _, .powerShell =>
    "(Get-FileHash -Algorithm SHA256 '" ++ replaceChar path '\x27' "''" ++ "').Hash"

end RemoteHost

def isHexDigit (c : Char) : Bool :=
  ('0' ≤ c && c ≤ '9') || ('a' ≤ c && c ≤ 'f') || ('A' ≤ c && c ≤ 'F')

/-- The first word of 64 hexadecimal digits, in lower case. -/
def parseHash (out : Text) : Option String :=
  ((words out).find? fun word => word.length = 64 ∧ word.all isHexDigit).map asciiLower

structure ExecOutput where
  status : Option ℕ
  stdout : Text
  stderr : Text
  deriving DecidableEq

def ExecOutput.success (out : ExecOutput) : Bool := out.status = some 0

inductive SshError where
  | connect (text : String)
  | hostKeyRejected (host : String) (port : ℕ) (fingerprint : String)
  | hostKeyChanged (host : String) (port : ℕ) (file : String) (line : ℕ)
  | hostKeyRevoked (host : String) (port : ℕ) (file : String) (line : ℕ)
  | auth (text : String)
  | channel (text : String)
  deriving DecidableEq

inductive DeployError where
  | detect (text : String)
  | noBinary (target path : String)
  | upload (text : String)
  /-- `install-hooks` exited with a non-zero or missing status. -/
  | hooks (status : Option ℕ) (stderr : Text)
  | ssh (e : SshError)
  deriving DecidableEq

/-- The kinds of file errors that are told apart. -/
inductive IoKind where
  | timedOut
  | other
  deriving DecidableEq

def sftpRequestTimeoutSecs : ℕ := 60

/-- A lost connection and a slow one are retried; anything else needs the user. -/
def uploadError (e : IoError IoKind) (connectionClosed : Bool) : DeployError :=
  if connectionClosed then .ssh (.connect ("connection lost during upload: " ++ e.text))
  else if e.kind = .timedOut then
    .ssh (.connect s!"upload timed out (no answer within {sftpRequestTimeoutSecs} s)")
  else .upload e.text

/-- What other libraries compute: the hash of a file in lower-case hexadecimal digits, the hook
result on a line, and how texts look with quotes around them. -/
structure Externals (α : Type) where
  sha256Hex : α → String
  hookResult : Text → Option HookResult
  debug : Text → String
  debugLines : List Text → String

structure DeployOptions where
  dir : String
  installHooks : Bool
  client : String

structure DeployReport where
  remote : RemoteHost
  probePath : String
  /-- False when the remote binary already matched. -/
  uploaded : Bool
  hooks : List HookResult

/-- The bundled probe binaries. -/
structure ProbeStore where
  dir : String

def ProbeStore.binary (store : ProbeStore) (target : String) : String :=
  store.dir ++ "/" ++ target ++ "/" ++
    if "windows".toList <:+: target.toList then "mai-probe.exe" else "mai-probe"

def clientArgv (client : String) : List String :=
  let client := sanitizeClient client
  if client.isEmpty then [] else ["--client", client]

def serveArgv (client : String) (zellij : Option String) : List String :=
  ["serve"] ++ clientArgv client ++ match zellij with
    | none => []
    | some z => ["--zellij", z]

def stopArgv (client : String) : List String := ["stop"] ++ clientArgv client

def stopArgs (client : String) : String := " ".intercalate (stopArgv client)

/-- What a deployment asks of the client's disk, of the host and of the clock. -/
inductive Op (α : Type) where
  | read (path : String)
  | exec (command : String)
  | sftp
  | tryExists (path : String)
  | createDir (path : String)
  | create (path : String)
  | writeAll (path : String) (content : α)
  | shutdown (path : String)
  | setMode (path : String) (mode : ℕ)
  | file (op : FileOp)
  | isClosed
  | nowMs

/-- The answers; what a command prints is decoded. -/
abbrev Ans {α : Type} : Op α → Type
  | .read _ => Option α
  | .exec _ => Except SshError ExecOutput
  | .sftp => Except SshError Unit
  | .tryExists _ => Except (IoError IoKind) Bool
  | .createDir _ | .create _ | .writeAll .. | .shutdown _ | .setMode .. =>
    Except (IoError IoKind) Unit
  | .file op => Answered IoKind op
  | .isClosed => Bool
  | .nowMs => ℕ

abbrev Program (α ρ : Type) := Asking (Op α) Ans (Except DeployError ρ)

abbrev DeployEvent (α : Type) := Asking.Event (Ans (α := α))

section Programs

variable {α ρ : Type} (ext : Externals α)

/-- The end of a step that ends or finds an SSH error. -/
def overSsh : Except SshError ρ → Program α ρ
  | .ok r => .done (.ok r)
  | .error e => .done (.error (.ssh e))

def exec (command : String) : Program α ExecOutput := .ask (.exec command) overSsh

def posixDetectCommand : String :=
  "uname -sm >/dev/null && echo MAI-DETECT-BEGIN && uname -sm && " ++
    "printf '%s\\n' \x22$HOME\x22 && echo MAI-DETECT-END"

def windowsDetectCommand : Shell → String
  | .cmd => "echo MAI-DETECT-BEGIN& echo %PROCESSOR_ARCHITECTURE%& echo %USERPROFILE%& " ++
      "echo MAI-DETECT-END"
  | _ => "echo MAI-DETECT-BEGIN; $env:PROCESSOR_ARCHITECTURE; $env:USERPROFILE; " ++
      "echo MAI-DETECT-END"

/-- The end of a step that parses an output. -/
def detected : Except DetectError ρ → Program α ρ
  | .ok r => .done (.ok r)
  | .error e => .done (.error (.detect (e.text ext.debug ext.debugLines)))

/-- The shell of a Windows host: cmd expands `%OS%`, PowerShell prints it. -/
def windowsShell (out : Text) : Program α Shell :=
  match String.ofList (trim out) with
  | "Windows_NT" => .done (.ok .cmd)
  | "%OS%" => .done (.ok .powerShell)
  | _ => .done (.error (.detect
      ("neither a POSIX shell nor Windows (%OS%: " ++ ext.debug (trim out) ++ ")")))

/-- Detect system, CPU, shell and home of the host. -/
def detect : Program α RemoteHost :=
  (exec posixDetectCommand).attempt fun posix =>
  (detected ext (parsePosixDetect posix.stdout)).attempt fun
    | some (os, arch, home) => .done (.ok ⟨⟨os, .posix⟩, arch, String.ofList home⟩)
    | none =>
      (exec "echo %OS%").attempt fun os =>
      (windowsShell ext os.stdout).attempt fun shell =>
      (exec (windowsDetectCommand shell)).attempt fun out =>
      (detected ext (parseWindowsDetect out.stdout)).attempt fun (arch, home) =>
      .done (.ok ⟨⟨.windows, shell⟩, arch, String.ofList home⟩)

/-- The end of an upload step. -/
def uploading : Except (IoError IoKind) ρ → Program α ρ
  | .ok r => .done (.ok r)
  | .error e => .ask .isClosed fun closed => .done (.error (uploadError e closed))

/-- Make the directories of a path, part after part. -/
def makeDirs : String → List String → Program α Unit
  | _, [] => .done (.ok ())
  | path, part :: parts =>
    let path := (if path.isEmpty then path else path ++ "/") ++ part
    .ask (.tryExists path) fun found =>
    (uploading found).attempt fun
      | true => makeDirs path parts
      | false => .ask (.createDir path) fun made =>
        (uploading made).attempt fun () => makeDirs path parts

/-- Throw the upload away and say why. -/
def reject (tmp text : String) : Program α Unit :=
  .ask (.file (.remove tmp)) fun _ => .done (.error (.upload text))

def debugStatus : Option ℕ → String
  | none => "None"
  | some status => s!"Some({status})"

/-- Compare the hash of the upload on the host with that of the bytes. -/
def verify (remote : RemoteHost) (dir : String) (bytes : α) (tmp : String) : Program α Unit :=
  let tmpAbs := remote.probePath dir ++ ".upload"
  (exec (remote.hashCommand tmpAbs)).attempt fun out =>
  match parseHash out.stdout with
  | none => reject tmp ("cannot compute SHA-256 of " ++ tmpAbs ++ " on the host (exit " ++
      debugStatus out.status ++ "): " ++ String.ofList (trim out.stderr))
  | some written =>
    if written ≠ ext.sha256Hex bytes then
      reject tmp ("uploaded file does not match (SHA-256 " ++ written ++ ")")
    else .done (.ok ())

/-- Write the upload. -/
def write (remote : RemoteHost) (tmp : String) (bytes : α) : Program α Unit :=
  .ask (.create tmp) fun created => (uploading created).attempt fun () =>
  .ask (.writeAll tmp bytes) fun written => (uploading written).attempt fun () =>
  .ask (.shutdown tmp) fun closed => (uploading closed).attempt fun () =>
  if remote.os = .windows then .done (.ok ())
  else .ask (.setMode tmp 0o755) fun set => uploading set

/-- Put the upload in place. -/
def swap (binDir exe : String) : Program α Unit :=
  .ask .nowMs fun stamp =>
  ((swapIn binDir exe stamp).lift Op.file fun _ a => a).bind fun
    | .ok () => .done (.ok ())
    | .error e => .done (.error (.upload ("replace " ++ binDir ++ "/" ++ exe ++ ": " ++ e.text)))

/-- Write the bytes beside the binary, check them on the host and put them in place. -/
def upload (remote : RemoteHost) (dir : String) (bytes : α) : Program α Unit :=
  let binDir := dir ++ "/bin"
  let tmp := binDir ++ "/" ++ remote.exeName ++ ".upload"
  .ask .sftp fun opened => (overSsh opened).attempt fun () =>
  (makeDirs "" ((binDir.toList.splitOn '/').map String.ofList)).attempt fun () =>
  (write remote tmp bytes).attempt fun () =>
  (verify ext remote dir bytes tmp).attempt fun () =>
  swap binDir remote.exeName

/-- The results on the lines of an output; other lines are ignored. -/
def parseHookLines (out : Text) : List HookResult := (trimmed out).filterMap ext.hookResult

def hooksResult (out : ExecOutput) : Except DeployError (List HookResult) :=
  if out.success then .ok (parseHookLines ext out.stdout)
  else .error (.hooks out.status out.stderr)

/-- Stop a running probe, best effort, if there is one. -/
def stop (remote : RemoteHost) (path client : String) (found : Bool) : Program α Unit :=
  if found then .ask (.exec (remote.invoke path (stopArgs client))) fun _ => .done (.ok ())
  else .done (.ok ())

/-- Make sure the bytes are on the host: whether they had to be uploaded. -/
def place (opts : DeployOptions) (remote : RemoteHost) (bytes : α) : Program α Bool :=
  let path := remote.probePath opts.dir
  (exec (remote.hashCommand path)).attempt fun out =>
  let remoteHash := parseHash out.stdout
  if remoteHash ≠ some (ext.sha256Hex bytes) then
    (stop remote path opts.client remoteHash.isSome).attempt fun () =>
    (upload ext remote opts.dir bytes).attempt fun () => .done (.ok true)
  else .done (.ok false)

/-- Install the hooks, if they are wanted. -/
def hook (opts : DeployOptions) (remote : RemoteHost) : Program α (List HookResult) :=
  if opts.installHooks then
    (exec (remote.invoke (remote.probePath opts.dir) "install-hooks")).attempt fun out =>
    .done (hooksResult ext out)
  else .done (.ok [])

/-- The name of a system in an error. -/
def osName : Os → String
  | .linux => "Linux"
  | .macOs => "MacOs"
  | .windows => "Windows"

/-- The bundled binary for a host. -/
def bundled (store : ProbeStore) (remote : RemoteHost) : Program α α :=
  match remote.target with
  | none => .done (.error (.detect ("unsupported " ++ osName remote.os ++ " " ++ remote.arch)))
  | some target => .ask (.read (store.binary target)) fun
    | none => .done (.error (.noBinary target (store.binary target)))
    | some bytes => .done (.ok bytes)

/-- Make sure the right probe is on the host, then install the hooks. -/
def deploy (store : ProbeStore) (opts : DeployOptions) : Program α DeployReport :=
  (detect ext).attempt fun remote =>
  (bundled store remote).attempt fun bytes =>
  (place ext opts remote bytes).attempt fun uploaded =>
  (hook ext opts remote).attempt fun hooks =>
  .done (.ok ⟨remote, remote.probePath opts.dir, uploaded, hooks⟩)

end Programs

end MultiAi.Deploy
