import MultiAi.Library.Asking

/-! # Authentication

A client asks the server which methods it offers and goes through its key files, the agents,
passwords and the questions of the server. What the server, the keychain, the user and the files
answer is left open.
-/

namespace MultiAi.Auth

inductive MethodKind where
  | none
  | password
  | publicKey
  | hostBased
  | keyboardInteractive
  deriving DecidableEq, Repr

inductive AuthResult where
  | success
  | failure (remainingMethods : List MethodKind) (partialSuccess : Bool)
  deriving DecidableEq, Repr

structure KbdPrompt where
  text : String
  echo : Bool
  deriving DecidableEq, Repr

inductive KbdReply where
  | success
  | failure (remainingMethods : List MethodKind) (partialSuccess : Bool)
  | infoRequest (name instructions : String) (prompts : List KbdPrompt)
  deriving DecidableEq, Repr

/-- A secret typed by the user, and whether to remember it. -/
structure Secret where
  value : String
  remember : Bool
  deriving DecidableEq, Repr

/-- What reading a private key comes to; `κ` is the type of public keys, and a private key is
known by its public one. -/
inductive LoadResult (κ : Type) where
  | key (k : κ)
  | encrypted
  | failed
  deriving DecidableEq, Repr

structure HostSpec where
  hostAlias : String
  host : String
  user : String
  identityFiles : List String

inductive SshError where
  | connect (text : String)
  | auth (text : String)
  deriving DecidableEq, Repr

inductive Agent where
  | env
  | namedPipe
  | pageant
  deriving DecidableEq, Repr

/-- What a keychain entry is used for. -/
inductive Use where
  | passphrase
  | password
  deriving DecidableEq, Repr

/-- What the client asks of the server, the files, the keychain, the user and the agents. -/
inductive Op (κ : Type) where
  | none (user : String)
  | bestSupportedRsaHash
  | offer (user : String) (key : κ)
  | sign (key : κ) (signer : Option κ)
  | publickey (user : String) (key : κ)
  | password (user value : String)
  | kbdStart (user : String)
  | kbdRespond (answers : List String)
  | isFile (path : String)
  | publicKeyOf (path : String)
  | loadSecretKey (path : String) (pass : Option String)
  | trySign (key : κ)
  | get (use : Use) (key : String)
  | set (use : Use) (key value : String)
  | delete (use : Use) (key : String)
  | askPassphrase (path : String)
  | askPassword (user host : String)
  | askKbd (name instructions : String) (prompts : List KbdPrompt)
  | identities (agent : Agent)
  | agentKey (user : String) (agent : Agent) (key : κ)

/-- The answers. A server that accepts an offered key asks for a signature: it answers nothing
yet. An identity of an agent that is a certificate has no key here. -/
abbrev Ans {κ : Type} : Op κ → Type
  | .none _ | .sign .. | .publickey .. | .password .. | .agentKey .. => Except String AuthResult
  | .bestSupportedRsaHash => Except String Unit
  | .offer .. => Except String (Option AuthResult)
  | .kbdStart _ | .kbdRespond _ => Except String KbdReply
  | .isFile _ | .trySign _ => Bool
  | .publicKeyOf _ => Option κ
  | .loadSecretKey .. => LoadResult κ
  | .get .. => Option String
  | .set .. | .delete .. => Except String Unit
  | .askPassphrase _ | .askPassword .. => Option Secret
  | .askKbd .. => Option (List String)
  | .identities _ => Option (List (Option κ))

abbrev Program (κ ρ : Type) := Asking (Op κ) Ans ρ

abbrev AuthEvent (κ : Type) := Asking.Event (Ans (κ := κ))

section Programs

variable {κ α ρ : Type}

/-- Go on with an answer, unless the connection broke. -/
def connected (next : α → Program κ (Except SshError ρ)) :
    Except String α → Program κ (Except SshError ρ)
  | .ok a => next a
  | .error e => .done (.error (.connect e))

/-- A program and then the next one, unless there is an error. -/
def andThen (p : Program κ (Except SshError α)) (f : α → Program κ (Except SshError ρ)) :
    Program κ (Except SshError ρ) :=
  p.bind fun
    | .ok a => f a
    | .error e => .done (.error e)

/-- What a failed keychain call adds to the notes. -/
def noted (notes : List String) (what : String) : Except String Unit → List String
  | .ok () => notes
  | .error e => notes ++ [what ++ ": " ++ e]

def passwordKey (hostId : String) : String := hostId ++ "/password"

/-- `canonical` spells a path the way `passphrase_key` does. -/
def passphraseKey (canonical : String → String) (path : String) : String :=
  "passphrase:" ++ canonical path

def legacyPassphraseKey (path : String) : String := "passphrase:" ++ path

def couldNotSave (path : String) : String :=
  "could not save the passphrase of " ++ path ++ " in the keychain"

/-- Move a passphrase from the key it used to have. -/
def migratePassphrase (path key : String) (notes : List String) :
    Program κ (Option κ × List String) :=
  let legacy := legacyPassphraseKey path
  let move : Program κ (Option κ × List String) :=
    .ask (.get .passphrase legacy) fun
      | none => .done (none, notes)
      | some pass =>
        let remove (decrypted : Option κ) : Program κ (Option κ × List String) :=
          .ask (.delete .passphrase legacy) fun r => .done (decrypted, noted notes
            ("could not remove the old passphrase entry of " ++ path ++ " from the keychain") r)
        .ask (.loadSecretKey path (some pass)) fun
          | .key k => .ask (.set .passphrase key pass) fun
            | .ok () => remove (some k)
            | .error e => .done (some k, noted notes (couldNotSave path) (.error e))
          | _ => remove none
  if legacy = key then .done (none, notes)
  else .ask (.get .passphrase key) fun
    | some _ => .done (none, notes)
    | none => move

/-- Ask the user for the passphrase of a key file. -/
def promptPassphrase (path key : String) (notes : List String) :
    Program κ (Option κ × List String) :=
  .ask (.askPassphrase path) fun
    | none => .done (none, notes)
    | some s => .ask (.loadSecretKey path (some s.value)) fun
      | .key k =>
        if s.remember then
          .ask (.set .passphrase key s.value) fun r =>
            .done (some k, noted notes (couldNotSave path) r)
        else .done (some k, notes)
      | _ => .done (none, notes)

/-- Load a private key; ask for its passphrase. -/
def loadKey (canonical : String → String) (path : String) (notes : List String) :
    Program κ (Option κ × List String) :=
  .ask (.loadSecretKey path none) fun
    | .key k => .done (some k, notes)
    | .failed => .done (none, notes)
    | .encrypted =>
      let key := passphraseKey canonical path
      (migratePassphrase path key notes).bind fun
        | (some k, notes) => .done (some k, notes)
        | (none, notes) => .ask (.get .passphrase key) fun
          | none => promptPassphrase path key notes
          | some pass => .ask (.loadSecretKey path (some pass)) fun
            | .key k => .done (some k, notes)
            | _ => .ask (.delete .passphrase key) fun r => promptPassphrase path key (noted notes
              ("could not remove the stale passphrase of " ++ path ++ " from the keychain") r)

/-- A key that a file has signed for: the answer, whether the passphrase was declined and the
notes. -/
def signFile (canonical : String → String) (path : String) (key : κ) (notes : List String) :
    Program κ (Except SshError (AuthResult × Bool × List String)) :=
  (loadKey canonical path notes).bind fun
    | (none, notes) => .ask (.sign key none) (connected fun r => .done (.ok (r, true, notes)))
    | (some k, notes) => .ask (.trySign k) fun
      | true => .ask (.sign key (some k)) (connected fun r => .done (.ok (r, false, notes)))
      | false => .ask (.sign key none) (connected fun r => .done (.ok (r, true, notes)))

/-- Offer a public key; sign for it if the server accepts it. -/
def offerFile (canonical : String → String) (user path : String) (key : κ) (notes : List String) :
    Program κ (Except SshError (AuthResult × Bool × List String)) :=
  .ask (.offer user key) (connected fun
    | some r => .done (.ok (r, false, notes))
    | none => signFile canonical path key notes)

def offers (methods : Option (List MethodKind)) (kind : MethodKind) : Bool :=
  methods.all fun m => m.contains kind

/-- Result of one authentication attempt. -/
inductive Step where
  | done
  | partialSuccess
  | failed
  deriving DecidableEq, Repr

/-- Record the server's remaining methods and classify the result. -/
def step (methods : Option (List MethodKind)) : AuthResult → Step × Option (List MethodKind)
  | .success => (.done, methods)
  | .failure remaining partialSuccess =>
    (if partialSuccess then .partialSuccess else .failed, some remaining)

/-- The methods left, the public keys already offered and the notes. -/
structure Progress (κ : Type) where
  methods : Option (List MethodKind)
  tried : List κ
  notes : List String

/-- Go on after an attempt, unless it was accepted. -/
def afterAttempt (next : Progress κ → Program κ (Except SshError (Step × Progress κ)))
    (pr : Progress κ) (r : AuthResult) : Program κ (Except SshError (Step × Progress κ)) :=
  match step pr.methods r with
  | (.failed, methods) => next { pr with methods }
  | (s, methods) => .done (.ok (s, { pr with methods }))

/-- Try the key files in turn, until one is accepted. -/
def tryFiles (canonical : String → String) (user : String) :
    List String → Progress κ → Program κ (Except SshError (Step × Progress κ))
  | [], pr => .done (.ok (.failed, pr))
  | path :: paths, pr =>
    .ask (.isFile path) fun
      | false => tryFiles canonical user paths pr
      | true => .ask .bestSupportedRsaHash (connected fun () => .ask (.publicKeyOf path) fun
        | some key =>
          andThen (offerFile canonical user path key pr.notes) fun (r, declined, notes) =>
            afterAttempt (tryFiles canonical user paths)
              { pr with tried := if declined then pr.tried else pr.tried ++ [key], notes } r
        | none =>
          (loadKey canonical path pr.notes).bind fun
            | (none, notes) => tryFiles canonical user paths { pr with notes }
            | (some key, notes) => .ask (.publickey user key)
              (connected (afterAttempt (tryFiles canonical user paths)
                { pr with tried := pr.tried ++ [key], notes })))

/-- Offer the agent's keys that were not tried already. -/
def agentAuth [DecidableEq κ] (user : String) (agent : Agent) (tried : List κ) :
    List (Option κ) → Option (List MethodKind) →
      Program κ (Except SshError (Step × Option (List MethodKind)))
  | [], methods => .done (.ok (.failed, methods))
  | none :: ids, methods => agentAuth user agent tried ids methods
  | some key :: ids, methods =>
    if key ∈ tried then agentAuth user agent tried ids methods
    else .ask .bestSupportedRsaHash (connected fun () => .ask (.agentKey user agent key) fun
      | .error _ => agentAuth user agent tried ids methods
      | .ok r => match step methods r with
        | (.failed, methods) => agentAuth user agent tried ids methods
        | (s, methods) => .done (.ok (s, methods)))

/-- Try the agents in turn; an agent that does not answer has no keys. -/
def tryAgents [DecidableEq κ] (user : String) (tried : List κ) :
    List Agent → Option (List MethodKind) →
      Program κ (Except SshError (Step × Option (List MethodKind)))
  | [], methods => .done (.ok (.failed, methods))
  | agent :: agents, methods =>
    .ask (.identities agent) fun
      | none => tryAgents user tried agents methods
      | some ids => andThen (agentAuth user agent tried ids methods) fun
        | (.failed, methods) => tryAgents user tried agents methods
        | r => .done (.ok r)

/-- The keys, if they are offered: whether they were enough. -/
def keys [DecidableEq κ] (canonical : String → String) (agents : List Agent) (spec : HostSpec)
    (pr : Progress κ) : Program κ (Except SshError (Bool × Progress κ)) :=
  if offers pr.methods .publicKey then
    andThen (tryFiles canonical spec.user spec.identityFiles pr) fun
      | (.done, pr) => .done (.ok (true, pr))
      | (.partialSuccess, pr) => .done (.ok (false, pr))
      | (.failed, pr) =>
        andThen (tryAgents spec.user pr.tried agents pr.methods) fun (s, methods) =>
          .done (.ok (s = .done, { pr with methods }))
  else .done (.ok (false, pr))

/-- Ask the user for a password and try it, if it is still offered. -/
def promptPassword (spec : HostSpec) (pr : Progress κ) :
    Program κ (Except SshError (Bool × Progress κ)) :=
  if offers pr.methods .password then
    .ask (.askPassword spec.user spec.host) fun
      | none => .done (.ok (false, pr))
      | some s => .ask (.password spec.user s.value) (connected fun r =>
        let (result, methods) := step pr.methods r
        if result ≠ .failed ∧ s.remember then
          .ask (.set .password (passwordKey spec.hostAlias) s.value) fun saved =>
            .done (.ok (result = .done, { pr with
              methods
              notes := noted pr.notes
                ("could not save the password of " ++ spec.hostAlias ++ " in the keychain")
                saved }))
        else .done (.ok (result = .done, { pr with methods })))
  else .done (.ok (false, pr))

/-- The stored password, if it is offered, and then one typed by the user. -/
def passwords (spec : HostSpec) (pr : Progress κ) :
    Program κ (Except SshError (Bool × Progress κ)) :=
  if offers pr.methods .password then
    .ask (.get .password (passwordKey spec.hostAlias)) fun
      | none => promptPassword spec pr
      | some pw => .ask (.password spec.user pw) (connected fun r =>
        match step pr.methods r with
        | (.done, methods) => .done (.ok (true, { pr with methods }))
        | (.partialSuccess, methods) => .done (.ok (false, { pr with methods }))
        | (.failed, methods) => .ask (.delete .password (passwordKey spec.hostAlias)) fun removed =>
          promptPassword spec { pr with
            methods
            notes := noted pr.notes
              ("could not remove the wrong password of " ++ spec.hostAlias ++ " from the keychain")
              removed })
  else .done (.ok (false, pr))

/-- A server that keeps asking is given up on after this many rounds. -/
def maxKbdRounds : ℕ := 10

/-- Answer the rounds of a server; no answer is needed where it asks nothing. -/
def kbdRounds : ℕ → KbdReply → Program κ (Except SshError Bool)
  | _, .success => .done (.ok true)
  | 0, _ => .done (.ok false)
  | _ + 1, .failure .. => .done (.ok false)
  | rounds + 1, .infoRequest name instructions prompts =>
    let respond (answers : List String) := Asking.ask (.kbdRespond answers)
      (connected (kbdRounds rounds))
    if prompts = [] then respond []
    else .ask (.askKbd name instructions prompts) fun
      | none => .done (.ok false)
      | some answers => respond answers

def keyboardInteractive (spec : HostSpec) : Program κ (Except SshError Bool) :=
  .ask (.kbdStart spec.user) (connected (kbdRounds maxKbdRounds))

/-- The questions of the server, if it offers them, are the last method. -/
def lastMethod (spec : HostSpec) (pr : Progress κ) : Program κ (Except SshError Unit) :=
  let failed := .done (.error (.auth
    ("no method succeeded for " ++ spec.user ++ "@" ++ spec.host ++
      if pr.notes = [] then "" else " (" ++ "; ".intercalate pr.notes ++ ")")))
  if offers pr.methods .keyboardInteractive then
    andThen (keyboardInteractive spec) fun
      | true => .done (.ok ())
      | false => failed
  else failed

/-- `agents` are those to ask, none if agents are not to be used. -/
def authenticate [DecidableEq κ] (canonical : String → String) (agents : List Agent)
    (spec : HostSpec) (notes : List String) : Program κ (Except SshError Unit) :=
  .ask (.none spec.user) (connected fun
    | .success => .done (.ok ())
    | .failure remaining _ =>
      andThen (keys canonical agents spec ⟨some remaining, [], notes⟩) fun
        | (true, _) => .done (.ok ())
        | (false, pr) => andThen (passwords spec pr) fun
          | (true, _) => .done (.ok ())
          | (false, pr) => lastMethod spec pr)

/-- What is asked while the key of a file is loaded. -/
def Op.OfKeyFile (canonical : String → String) (path : String) : Op κ → Prop
  | .loadSecretKey p _ | .askPassphrase p => p = path
  | .get use key | .set use key _ | .delete use key =>
    use = .passphrase ∧ (key = passphraseKey canonical path ∨ key = legacyPassphraseKey path)
  | _ => False

variable {canonical : String → String} {path : String} {notes : List String}

theorem migratePassphrase_asks :
    (migratePassphrase path (passphraseKey canonical path) notes : Program κ _).Asks
      (Op.OfKeyFile canonical path) := by
  simp only [migratePassphrase]
  split
  · trivial
  · refine ⟨⟨rfl, .inl rfl⟩, ?_⟩
    rintro (_ | _)
    · refine ⟨⟨rfl, .inr rfl⟩, ?_⟩
      rintro (_ | pass)
      · trivial
      · refine ⟨rfl, ?_⟩
        rintro (k | _ | _)
        · refine ⟨⟨rfl, .inl rfl⟩, ?_⟩
          rintro (_ | ⟨⟩)
          · trivial
          · exact ⟨⟨rfl, .inr rfl⟩, fun _ => trivial⟩
        · exact ⟨⟨rfl, .inr rfl⟩, fun _ => trivial⟩
        · exact ⟨⟨rfl, .inr rfl⟩, fun _ => trivial⟩
    · trivial

theorem promptPassphrase_asks :
    (promptPassphrase path (passphraseKey canonical path) notes : Program κ _).Asks
      (Op.OfKeyFile canonical path) := by
  refine ⟨rfl, ?_⟩
  rintro (_ | s)
  · trivial
  · refine ⟨rfl, ?_⟩
    rintro (k | _ | _)
    · by_cases hs : s.remember
      · simp only [hs, if_true]
        exact ⟨⟨rfl, .inl rfl⟩, fun _ => trivial⟩
      · simp only [hs]
        trivial
    · trivial
    · trivial

theorem loadKey_asks :
    (loadKey canonical path notes : Program κ _).Asks (Op.OfKeyFile canonical path) := by
  refine ⟨rfl, ?_⟩
  rintro (k | _ | _)
  · trivial
  · refine migratePassphrase_asks.bind ?_
    rintro ⟨_ | k, notes⟩
    · refine ⟨⟨rfl, .inl rfl⟩, ?_⟩
      rintro (_ | pass)
      · exact promptPassphrase_asks
      · refine ⟨rfl, ?_⟩
        rintro (k | _ | _)
        · trivial
        · exact ⟨⟨rfl, .inl rfl⟩, fun _ => promptPassphrase_asks⟩
        · exact ⟨⟨rfl, .inl rfl⟩, fun _ => promptPassphrase_asks⟩
    · trivial
  · trivial

end Programs

section Rules

open Asking

variable {κ α ρ : Type} {σ ν : Type*} {serve : (op : Op κ) → σ → ν → Ans op × σ}
  {C : List (AuthEvent κ) → σ → Prop} {E : Prop}
  {Q : List (AuthEvent κ) → σ → ρ → Prop} {log : List (AuthEvent κ)} {s : σ}

/-- A program ends with an error where `E` holds, or else `Q` holds of its result. -/
def Ends (E : Prop) (Q : List (AuthEvent κ) → σ → ρ → Prop)
    (log : List (AuthEvent κ)) (s : σ) : Except SshError ρ → Prop
  | .ok r => Q log s r
  | .error _ => E

theorem andThen_safe {p : Program κ (Except SshError α)}
    {f : α → Program κ (Except SshError ρ)}
    (hp : p.Safe serve C (Ends E fun log s a => (f a).Safe serve C (Ends E Q) log s) log s) :
    (andThen p f).Safe serve C (Ends E Q) log s := by
  apply Safe.bind
  apply hp.here_end.mono
  rintro log s (e | a) ⟨hc, hq⟩
  · exact ⟨hc, hq⟩
  · exact hq

theorem connected_safe {next : α → Program κ (Except SshError ρ)} {a : Except String α}
    (hc : C log s) (h : ∀ r, a = .ok r → (next r).Safe serve C (Ends True Q) log s) :
    (connected next a).Safe serve C (Ends True Q) log s := by
  cases a with
  | ok r => exact h r rfl
  | error e => exact ⟨hc, trivial⟩

end Rules

end MultiAi.Auth
