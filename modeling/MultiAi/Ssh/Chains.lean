import MultiAi.Ssh.Password
import Mathlib.Data.List.Infix

/-! # Servers that ask for a chain of methods

A server asks for one of several chains of methods. A client goes through its methods once, in its
own order; a chain follows that order if it skips only what is not offered.
-/

namespace MultiAi.Auth

open Asking

/-- The methods of a chain. -/
inductive Factor where
  | publicKey
  | password
  | keyboardInteractive
  deriving DecidableEq, Repr

def Factor.kind : Factor → MethodKind
  | .publicKey => .publicKey
  | .password => .password
  | .keyboardInteractive => .keyboardInteractive

/-- The methods in the order of the client. -/
def methodOrder : List Factor := [.publicKey, .password, .keyboardInteractive]

/-- One round of questions. Where nothing is asked, no answers are right. -/
structure Round where
  name : String
  instructions : String
  prompts : List KbdPrompt
  right : List String → Bool
  right_nil : prompts = [] → right [] = true

/-- The chains of a server, and what it accepts. -/
structure Server (κ : Type) where
  chains : List (List Factor)
  acceptsKey : κ → Bool
  acceptsPassword : String → Bool
  rounds : List Round

/-- The files of a client and the answers of its user. -/
structure Client (κ : Type) where
  isFile : String → Bool
  publicKeyOf : String → Option κ
  loadSecretKey : String → Option String → LoadResult κ
  signs : κ → Bool
  passphrase : String → Option Secret
  password : Option Secret
  kbd : String → String → List KbdPrompt → Option (List String)

/-- The methods that were completed, the rounds that are not answered yet and the keychain. -/
structure World where
  passed : List Factor
  asking : List Round
  keychain : Keychain

section Chains

variable (chains : List (List Factor)) {passed order c : List Factor} {m f : Factor}

/-- The methods with which the still possible chains go on. -/
def nextFactors (passed : List Factor) : List Factor :=
  chains.filterMap fun chain => if passed.isPrefixOf chain then chain[passed.length]? else none

/-- A chain follows the order of the client, and skips only what is not offered. -/
inductive Follows : List Factor → List Factor → List Factor → Prop where

  | complete {passed order : List Factor} : Follows passed order []

  | take {passed order c : List Factor} {m : Factor} : Follows (passed ++ [m]) order c →
      Follows passed (m :: order) (m :: c)

  | skip {passed order c : List Factor} {m : Factor} : m ∉ nextFactors chains passed →
      Follows passed order c → Follows passed (m :: order) c

/-- Some chain goes on with methods that follow the order. With so few rounds of questions, a
client can answer them all. -/
def Wins (few : Prop) (passed order : List Factor) : Prop :=
  ∃ c, c ≠ [] ∧ Follows chains passed order c ∧ passed ++ c ∈ chains ∧
    (.keyboardInteractive ∈ c → few)

variable {chains} {few : Prop}

theorem mem_nextFactors : m ∈ nextFactors chains passed ↔ ∃ c, passed ++ m :: c ∈ chains := by
  simp only [nextFactors, List.mem_filterMap, Option.ite_none_right_eq_some,
    List.isPrefixOf_iff_prefix]
  constructor
  · rintro ⟨c, hc, ⟨rest, rfl⟩, hm⟩
    rw [List.getElem?_append_right (Nat.le_refl _), Nat.sub_self] at hm
    obtain ⟨rest, rfl⟩ := List.head?_eq_some_iff.mp (List.head?_eq_getElem?.trans hm)
    exact ⟨rest, hc⟩
  · rintro ⟨c, hc⟩
    exact ⟨passed ++ m :: c, hc, List.prefix_append _ _, by simp⟩

/-- Nothing is left of the order. -/
theorem not_wins_nil : ¬Wins chains few passed [] := by
  rintro ⟨c, hne, hf, -, -⟩
  cases hf with
  | complete => exact hne rfl

theorem wins_skip (h : m ∉ nextFactors chains passed) :
    Wins chains few passed (m :: order) ↔ Wins chains few passed order := by
  constructor
  · rintro ⟨c, hne, hf, hc, hk⟩
    cases hf with
    | complete => exact absurd rfl hne
    | take hf => exact absurd (mem_nextFactors.mpr ⟨_, hc⟩) h
    | skip _ hf => exact ⟨c, hne, hf, hc, hk⟩
  · rintro ⟨c, hne, hf, hc, hk⟩
    exact ⟨c, hne, .skip h hf, hc, hk⟩

theorem wins_take (h : m ∈ nextFactors chains passed) (hm : m = .keyboardInteractive → few) :
    Wins chains few passed (m :: order) ↔
      passed ++ [m] ∈ chains ∨ Wins chains few (passed ++ [m]) order := by
  constructor
  · rintro ⟨c, hne, hf, hc, hk⟩
    cases hf with
    | complete => exact absurd rfl hne
    | skip hn hf => exact absurd h hn
    | @take _ _ c _ hf =>
      by_cases hlast : c = []
      · rw [hlast] at hc
        exact .inl hc
      · refine .inr ⟨c, hlast, hf, by simpa using hc, fun hmem => hk (List.mem_cons_of_mem _ hmem)⟩
  · rintro (hc | ⟨c, hne, hf, hc, hk⟩)
    · refine ⟨[m], List.cons_ne_nil _ _, .take .complete, hc, fun hmem => ?_⟩
      exact hm (List.mem_singleton.mp hmem).symm
    · refine ⟨m :: c, List.cons_ne_nil _ _, .take hf, by simpa using hc, fun hmem => ?_⟩
      rcases List.mem_cons.mp hmem with rfl | hmem
      · exact hm rfl
      · exact hk hmem

theorem wins_last :
    Wins chains few passed [.keyboardInteractive] ↔
      passed ++ [.keyboardInteractive] ∈ chains ∧ few := by
  constructor
  · rintro ⟨c, hne, hf, hc, hk⟩
    cases hf with
    | complete => exact absurd rfl hne
    | skip hn hf =>
      cases hf with
      | complete => exact absurd rfl hne
    | take hf =>
      cases hf with
      | complete => exact ⟨hc, hk List.mem_cons_self⟩
  · rintro ⟨hc, hfew⟩
    exact ⟨_, List.cons_ne_nil _ _, .take .complete, hc, fun _ => hfew⟩

end Chains

section Serving

variable {κ : Type} [DecidableEq κ] (server : Server κ) (client : Client κ)

def Server.methods (passed : List Factor) : List MethodKind :=
  (nextFactors server.chains passed).map Factor.kind

/-- The answer to a credential for a method. -/
def Server.complete (m : Factor) (right : Bool) (w : World) : AuthResult × World :=
  if right = true ∧ m ∈ nextFactors server.chains w.passed then
    let passed := w.passed ++ [m]
    if passed ∈ server.chains then (.success, { w with passed })
    else (.failure (server.methods passed) true, { w with passed })
  else (.failure (server.methods w.passed) false, w)

def AuthResult.reply : AuthResult → KbdReply
  | .success => .success
  | .failure remaining partialSuccess => .failure remaining partialSuccess

/-- Ask the next round, or complete the method. -/
def Server.askRounds (rounds : List Round) (w : World) : KbdReply × World :=
  match rounds with
  | [] =>
    let (r, w) := server.complete .keyboardInteractive true w
    (r.reply, w)
  | round :: _ =>
    (.infoRequest round.name round.instructions round.prompts, { w with asking := rounds })

def Server.kbdStart (w : World) : KbdReply × World :=
  if .keyboardInteractive ∈ nextFactors server.chains w.passed then server.askRounds server.rounds w
  else (.failure (server.methods w.passed) false, w)

def Server.kbdRespond (answers : List String) (w : World) : KbdReply × World :=
  match w.asking with
  | [] => (.failure (server.methods w.passed) false, w)
  | round :: rounds =>
    if round.right answers then server.askRounds rounds w
    else (.failure (server.methods w.passed) false, { w with asking := [] })

/-- Such a server and client. What agents and writes of the keychain come to is left open. -/
def serveChains (op : Op κ) (w : World) (answers : (op : Op κ) → Ans op) : Ans op × World :=
  match op with
  | .none _ => (.ok (.failure (server.methods w.passed) false), w)
  | .bestSupportedRsaHash => (.ok (), w)
  | .offer _ key =>
    if server.acceptsKey key = true ∧ .publicKey ∈ nextFactors server.chains w.passed then
      (.ok none, w)
    else (.ok (some (.failure (server.methods w.passed) false)), w)
  | .sign key signer =>
    (server.complete .publicKey (server.acceptsKey key && signer = some key) w).map .ok id
  | .publickey _ key => (server.complete .publicKey (server.acceptsKey key) w).map .ok id
  | .password _ value => (server.complete .password (server.acceptsPassword value) w).map .ok id
  | .kbdStart _ => (server.kbdStart w).map .ok id
  | .kbdRespond given => (server.kbdRespond given w).map .ok id
  | .isFile path => (client.isFile path, w)
  | .publicKeyOf path => (client.publicKeyOf path, w)
  | .loadSecretKey path pass => (client.loadSecretKey path pass, w)
  | .trySign key => (client.signs key, w)
  | .askPassphrase path => (client.passphrase path, w)
  | .askPassword _ _ => (client.password, w)
  | .askKbd name instructions prompts => (client.kbd name instructions prompts, w)
  | .identities agent => (answers (.identities agent), w)
  | .agentKey user agent key =>
    match answers (.agentKey user agent key) with
    | .error e => (.error e, w)
    | .ok _ => (server.complete .publicKey (server.acceptsKey key) w).map .ok id
  | op =>
    let (a, keychain) := serve op w.keychain answers
    (a, { w with keychain })

/-- A file whose key the server accepts, which the client can use. -/
structure KeyFile (path : String) (key : κ) : Prop where
  isFile : client.isFile path = true
  accepted : server.acceptsKey key = true
  publicKey : ∀ k, client.publicKeyOf path = some k → k = key
  only : ∀ pass k, client.loadSecretKey path pass = .key k → k = key
  opens : client.loadSecretKey path none = .key key ∨
    client.loadSecretKey path none = .encrypted ∧ ∃ s, client.passphrase path = some s ∧
      client.loadSecretKey path (some s.value) = .key key
  signs : client.signs key = true

/-- The keychain has a password that the server accepts, in an entry that is not also that of a
passphrase, or the user types one. -/
def HasPassword (canonical : String → String) (spec : HostSpec) (keychain : Keychain) : Prop :=
  (∃ pw, keychain (passwordKey spec.hostAlias) = some pw ∧ server.acceptsPassword pw = true ∧
    ∀ path ∈ spec.identityFiles, passwordKey spec.hostAlias ≠ passphraseKey canonical path ∧
      passwordKey spec.hostAlias ≠ legacyPassphraseKey path) ∨
    ∃ s, client.password = some s ∧ server.acceptsPassword s.value = true

/-- The user answers a round as it should be. -/
def Answers (round : Round) : Prop :=
  round.prompts ≠ [] → ∃ given,
    client.kbd round.name round.instructions round.prompts = some given ∧ round.right given = true

/-- The client has all that the server may ask for. -/
structure Ready (canonical : String → String) (spec : HostSpec) (keychain : Keychain) : Prop where
  key : ∃ path ∈ spec.identityFiles, ∃ key, KeyFile server client path key
  password : HasPassword server client canonical spec keychain
  kbd : ∀ round ∈ server.rounds, Answers client round

end Serving

end MultiAi.Auth
