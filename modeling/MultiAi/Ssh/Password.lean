import MultiAi.Library.Log
import MultiAi.Ssh.Auth
import Mathlib.Data.String.Basic
import Mathlib.Logic.Function.Basic

/-! # Passwords of a host

Where authentication sends, stores and removes passwords, whatever the server, the user and the
keychain do. The server may answer a password in one way now and in another way later, so what
counts is its latest answer.
-/

namespace MultiAi.Auth

open Asking

variable {κ : Type}

abbrev Keychain := String → Option String

/-- What an event leaves in the keychain; a call that failed changes nothing. -/
def Keychain.after (kc : Keychain) : AuthEvent κ → Keychain
  | ⟨.set _ key value, .ok ()⟩ => Function.update kc key (some value)
  | ⟨.delete _ key, .ok ()⟩ => Function.update kc key none
  | _ => kc

def Keychain.contents (kc : Keychain) (log : List (AuthEvent κ)) : Keychain :=
  log.foldl Keychain.after kc

/-- A keychain answers with what it holds; everything else is answered as `answers` says. -/
def serve (op : Op κ) (kc : Keychain) (answers : (op : Op κ) → Ans op) : Ans op × Keychain :=
  match op with
  | .get _ key => (kc key, kc)
  | op => (answers op, kc.after ⟨op, answers op⟩)

def AuthResult.remaining : AuthResult → Option (List MethodKind)
  | .success => none
  | .failure remaining _ => some remaining

/-- Success or partial success. -/
def AuthResult.accepted : AuthResult → Bool
  | .success => true
  | .failure _ partialSuccess => partialSuccess

/-- The method list of an answer of the server. -/
def methodsOf : AuthEvent κ → Option (List MethodKind)
  | ⟨.none _, .ok r⟩ | ⟨.sign .., .ok r⟩ | ⟨.publickey .., .ok r⟩ | ⟨.password .., .ok r⟩
  | ⟨.agentKey .., .ok r⟩ => r.remaining
  | ⟨.offer .., .ok (some r)⟩ => r.remaining
  | ⟨.kbdStart _, .ok (.failure remaining _)⟩ => some remaining
  | ⟨.kbdRespond _, .ok (.failure remaining _)⟩ => some remaining
  | _ => none

/-- The server's answer to a password. -/
def verdictOf (value : String) : AuthEvent κ → Option Bool
  | ⟨.password _ sent, .ok r⟩ => if sent = value then some r.accepted else none
  | _ => none

def latestMethods (log : List (AuthEvent κ)) : Option (List MethodKind) :=
  Log.latest (fun e => (methodsOf e).map some) none log

/-- Whether the server accepted a password, as far as it has answered it. -/
def verdict (value : String) (log : List (AuthEvent κ)) : Option Bool :=
  Log.latest (fun e => (verdictOf value e).map some) none log

/-- The user typed a password and asked to remember it. -/
def Remembered (value : String) (log : List (AuthEvent κ)) : Prop :=
  ∃ user host, ⟨.askPassword user host, some ⟨value, true⟩⟩ ∈ log

/-- A password is sent if the server's latest list has that method. Of the keychain's passwords
only that of the host is read or changed: it is removed if the server's latest answer to it is a
rejection, and written if it was typed to be remembered and the latest answer accepts it. -/
def Allowed (hostAlias : String) (kc : Keychain) (past : List (AuthEvent κ)) : Op κ → Prop
  | .password _ _ => ∃ methods, latestMethods past = some methods ∧ .password ∈ methods
  | .get .password key => key = passwordKey hostAlias
  | .delete .password key => key = passwordKey hostAlias ∧
      ∃ value, kc.contents past key = some value ∧ verdict value past = some false
  | .set .password key value => key = passwordKey hostAlias ∧ Remembered value past ∧
      verdict value past = some true
  | _ => True

/-- Each operation was allowed when it was asked for. -/
def Tidy (hostAlias : String) (kc : Keychain) (log : List (AuthEvent κ)) : Prop :=
  ∀ pre e post, log = pre ++ e :: post → Allowed hostAlias kc pre e.1

/-- What is known once the server has answered which methods it offers. -/
structure Known (hostAlias : String) (kc : Keychain) (methods : Option (List MethodKind))
    (log : List (AuthEvent κ)) (now : Keychain) : Prop where
  tidy : Tidy hostAlias kc log
  contents : now = kc.contents log
  latest : latestMethods log = methods
  asked : methods ≠ none

section Steps

variable {hostAlias value : String} {kc now : Keychain} {log : List (AuthEvent κ)} {op : Op κ}
  {methods : Option (List MethodKind)} {answers : (op : Op κ) → Ans op}

@[simp] theorem contents_concat (e : AuthEvent κ) :
    kc.contents (log ++ [e]) = (kc.contents log).after e := List.foldl_append

@[simp] theorem latestMethods_concat (e : AuthEvent κ) :
    latestMethods (log ++ [e]) = (methodsOf e).or (latestMethods log) := by
  rw [latestMethods, Log.latest_concat]
  cases methodsOf e <;> rfl

@[simp] theorem verdict_concat (e : AuthEvent κ) :
    verdict value (log ++ [e]) = (verdictOf value e).or (verdict value log) := by
  rw [verdict, Log.latest_concat]
  cases verdictOf value e <;> rfl

theorem serve_state : (serve op now answers).2 = now.after ⟨op, (serve op now answers).1⟩ := by
  cases op <;> rfl

theorem Tidy.concat {e : AuthEvent κ} (h : Tidy hostAlias kc log)
    (he : Allowed hostAlias kc log e.1) : Tidy hostAlias kc (log ++ [e]) := by
  rintro pre e' post hcut
  rcases Log.concat_eq_cut.mp hcut with ⟨mid, rfl, rfl⟩ | ⟨rfl, rfl, -⟩
  · exact h pre e' mid rfl
  · exact he

theorem Known.step (h : Known hostAlias kc methods log now) (hop : Allowed hostAlias kc log op)
    (answers : (op : Op κ) → Ans op) :
    Known hostAlias kc ((methodsOf ⟨op, (serve op now answers).1⟩).or methods)
      (log ++ [⟨op, (serve op now answers).1⟩]) (serve op now answers).2 := by
  constructor
  · exact h.tidy.concat hop
  · rw [contents_concat, serve_state, h.contents]
  · rw [latestMethods_concat, h.latest]
  · simp [h.asked]

/-- Loading a key leaves passwords and the server alone. -/
theorem allowed_of_ofKeyFile {canonical : String → String} {path : String}
    (h : op.OfKeyFile canonical path) :
    Allowed hostAlias kc log op ∧ ∀ a, methodsOf ⟨op, a⟩ = none := by
  cases op <;> first
    | exact ⟨trivial, fun _ => rfl⟩
    | exact absurd h id
    | (obtain ⟨rfl, -⟩ := h; exact ⟨trivial, fun _ => rfl⟩)

end Steps

section Programs

variable {hostAlias : String} {kc now : Keychain} {log : List (AuthEvent κ)} {op : Op κ}
  {methods : Option (List MethodKind)} {canonical : String → String} {ρ : Type}
  {Q : List (AuthEvent κ) → Keychain → ρ → Prop}

/-- However it is answered, a program asks only for what is allowed. -/
def Keeps (hostAlias : String) (kc : Keychain) (Q : List (AuthEvent κ) → Keychain → ρ → Prop)
    (p : Program κ ρ) (log : List (AuthEvent κ)) (now : Keychain) : Prop :=
  p.Safe serve (fun log _ => Tidy hostAlias kc log) Q log now

theorem Known.ask {next : Ans op → Program κ ρ} (h : Known hostAlias kc methods log now)
    (hop : Allowed hostAlias kc log op)
    (hnext : ∀ a, Known hostAlias kc ((methodsOf ⟨op, a⟩).or methods) (log ++ [⟨op, a⟩])
      (now.after ⟨op, a⟩) → Keeps hostAlias kc Q (next a) (log ++ [⟨op, a⟩]) (now.after ⟨op, a⟩)) :
    Keeps hostAlias kc Q (.ask op next) log now := by
  refine ⟨h.tidy, fun answers => ?_⟩
  have hk := h.step hop answers
  rw [serve_state] at hk ⊢
  exact hnext _ hk

theorem Known.ask_get {use : Use} {key : String}
    {next : Option String → Program κ ρ} (h : Known hostAlias kc methods log now)
    (hop : Allowed hostAlias kc log (.get use key))
    (hnext : Known hostAlias kc methods (log ++ [⟨.get use key, now key⟩]) now →
      Keeps hostAlias kc Q (next (now key)) (log ++ [⟨.get use key, now key⟩]) now) :
    Keeps hostAlias kc Q (.ask (.get use key) next) log now :=
  ⟨h.tidy, fun answers => hnext (h.step hop answers)⟩

theorem step_methods (r : AuthResult) : (step methods r).2 = r.remaining.or methods := by
  cases r <;> rfl

theorem Known.result {r : AuthResult} (h : Known hostAlias kc (r.remaining.or methods) log now) :
    Known hostAlias kc (Auth.step methods r).2 log now := by
  rw [step_methods]
  exact h

theorem loadKey_keeps {path : String} {notes : List String}
    (h : Known hostAlias kc methods log now) :
    Keeps hostAlias kc (fun log now _ => Known hostAlias kc methods log now)
      (loadKey canonical path notes) log now := by
  apply loadKey_asks.safe h
  · intro log now op answers hop hk
    obtain ⟨hallowed, hmethods⟩ := allowed_of_ofKeyFile hop
    simpa [hmethods] using hk.step hallowed answers
  · exact fun _ _ hk => hk.tidy

theorem signFile_keeps {path : String} {key : κ} {notes : List String}
    (h : Known hostAlias kc methods log now) :
    Keeps hostAlias kc (Ends True fun log now r => Known hostAlias kc (step methods r.1).2 log now)
      (signFile canonical path key notes) log now := by
  have hsign : ∀ (log : List (AuthEvent κ)) (now : Keychain) (signer : Option κ) (declined : Bool)
      (notes : List String), Known hostAlias kc methods log now →
      Keeps hostAlias kc
        (Ends True fun log now r => Known hostAlias kc (step methods r.1).2 log now)
        (.ask (.sign key signer) (connected fun r => .done (.ok (r, declined, notes)))) log
        now := by
    intro log now signer declined notes hk
    refine hk.ask trivial ?_
    rintro a hk
    apply connected_safe hk.tidy
    rintro r rfl
    exact ⟨hk.tidy, hk.result⟩
  apply Safe.bind
  apply (loadKey_keeps h).here_end.mono
  rintro log now ⟨_ | k, notes⟩ ⟨-, hk⟩
  · exact hsign _ _ _ _ _ hk
  · refine hk.ask trivial ?_
    rintro (_ | _) hk
    · exact hsign _ _ _ _ _ hk
    · exact hsign _ _ _ _ _ hk

theorem offerFile_keeps {user path : String} {key : κ} {notes : List String}
    (h : Known hostAlias kc methods log now) :
    Keeps hostAlias kc (Ends True fun log now r => Known hostAlias kc (step methods r.1).2 log now)
      (offerFile canonical user path key notes) log now := by
  refine h.ask trivial ?_
  rintro a hk
  apply connected_safe hk.tidy
  rintro (_ | r) rfl
  · exact signFile_keeps hk
  · exact ⟨hk.tidy, hk.result⟩

theorem afterAttempt_keeps {pr : Progress κ} {r : AuthResult}
    {next : Progress κ → Program κ (Except SshError (Step × Progress κ))}
    (h : Known hostAlias kc (step pr.methods r).2 log now)
    (hnext : ∀ {pr : Progress κ}, Known hostAlias kc pr.methods log now →
      Keeps hostAlias kc (Ends True fun log now r => Known hostAlias kc r.2.methods log now)
        (next pr) log now) :
    Keeps hostAlias kc (Ends True fun log now r => Known hostAlias kc r.2.methods log now)
      (afterAttempt next pr r) log now := by
  rw [afterAttempt]
  rcases hs : step pr.methods r with ⟨_ | _ | _, methods⟩
  · rw [hs] at h
    exact ⟨h.tidy, h⟩
  · rw [hs] at h
    exact ⟨h.tidy, h⟩
  · rw [hs] at h
    exact hnext h

theorem tryFiles_keeps {user : String} {paths : List String} {pr : Progress κ}
    (h : Known hostAlias kc pr.methods log now) :
    Keeps hostAlias kc (Ends True fun log now r => Known hostAlias kc r.2.methods log now)
      (tryFiles canonical user paths pr) log now := by
  induction paths generalizing pr log now with
  | nil => exact ⟨h.tidy, h⟩
  | cons path paths ih =>
    refine h.ask trivial ?_
    rintro (_ | _) hk
    · exact ih hk
    · refine hk.ask trivial ?_
      rintro a hk
      apply connected_safe hk.tidy
      rintro ⟨⟩ rfl
      refine hk.ask trivial ?_
      rintro (_ | key) hk
      · apply Safe.bind
        apply (loadKey_keeps hk).here_end.mono
        rintro log now ⟨_ | k, notes⟩ ⟨-, hk⟩
        · exact ih hk
        · refine hk.ask trivial ?_
          rintro a hk
          apply connected_safe hk.tidy
          rintro r rfl
          exact afterAttempt_keeps hk.result fun hk => ih hk
      · apply andThen_safe
        apply (offerFile_keeps hk).mono
        rintro log now (e | ⟨r, declined, notes⟩) hk
        · trivial
        · exact afterAttempt_keeps hk fun hk => ih hk

theorem sent_of_offers (h : Known hostAlias kc methods log now)
    (ho : offers methods .password = true) (user value : String) :
    Allowed hostAlias kc log (.password user value : Op κ) := by
  obtain ⟨ms, rfl⟩ := Option.ne_none_iff_exists'.mp h.asked
  exact ⟨ms, h.latest, List.contains_iff_mem.mp ho⟩

theorem step_accepted {r : AuthResult} (h : (step methods r).1 ≠ .failed) : r.accepted = true := by
  rcases r with _ | ⟨ms, _ | _⟩
  · rfl
  · exact absurd rfl h
  · rfl

/-- A password that was just answered. -/
theorem verdict_sent {user value : String} {r : AuthResult} :
    verdict value (log ++ [(⟨.password user value, .ok r⟩ : AuthEvent κ)]) = some r.accepted := by
  simp [verdictOf]

theorem promptPassword_keeps {spec : HostSpec} {pr : Progress κ}
    (h : Known spec.hostAlias kc pr.methods log now) :
    Keeps spec.hostAlias kc (Ends True fun log now r => Known spec.hostAlias kc r.2.methods log now)
      (promptPassword spec pr) log now := by
  rw [promptPassword]
  split
  · rename_i ho
    refine h.ask trivial ?_
    rintro (_ | ⟨value, remember⟩) hk
    · exact ⟨hk.tidy, hk⟩
    · refine hk.ask (sent_of_offers hk ho _ _) ?_
      rintro a hk
      apply connected_safe hk.tidy
      rintro r rfl
      have hk' : Known spec.hostAlias kc (step pr.methods r).2 _ _ := hk.result
      dsimp only
      split
      · rename_i hset
        obtain ⟨hresult, rfl⟩ := hset
        refine hk'.ask ⟨rfl, ⟨spec.user, spec.host, by simp⟩, ?_⟩ ?_
        · rw [verdict_sent, step_accepted hresult]
        · exact fun a hk => ⟨hk.tidy, hk⟩
      · exact ⟨hk'.tidy, hk'⟩
  · exact ⟨h.tidy, h⟩

theorem passwords_keeps {spec : HostSpec} {pr : Progress κ}
    (h : Known spec.hostAlias kc pr.methods log now) :
    Keeps spec.hostAlias kc (Ends True fun log now r => Known spec.hostAlias kc r.2.methods log now)
      (passwords spec pr) log now := by
  rw [passwords]
  split
  · rename_i ho
    refine h.ask_get rfl ?_
    intro hk
    cases hstored : now (passwordKey spec.hostAlias) with
    | none =>
      rw [hstored] at hk
      exact promptPassword_keeps hk
    | some pw =>
      rw [hstored] at hk
      refine hk.ask (sent_of_offers hk ho _ _) ?_
      rintro a hk
      apply connected_safe hk.tidy
      rintro r rfl
      have hk' : Known spec.hostAlias kc (step pr.methods r).2 _ _ := hk.result
      rcases r with _ | ⟨ms, _ | _⟩
      · exact ⟨hk'.tidy, hk'⟩
      · refine hk'.ask ⟨rfl, pw, ?_, verdict_sent⟩ ?_
        · rw [← hk'.contents]
          exact hstored
        · exact fun a hk => promptPassword_keeps hk
      · exact ⟨hk'.tidy, hk'⟩
  · exact ⟨h.tidy, h⟩

/-- The questions of a server. -/
def Op.OfKbd : Op κ → Prop
  | .kbdStart _ | .kbdRespond _ | .askKbd .. => True
  | _ => False

theorem allowed_of_ofKbd (h : op.OfKbd) : Allowed hostAlias kc log op := by
  cases op <;> first
    | exact trivial
    | exact absurd h id

theorem kbdRounds_asks {rounds : ℕ} {reply : KbdReply} :
    (kbdRounds rounds reply : Program κ _).Asks Op.OfKbd := by
  induction rounds generalizing reply with
  | zero => cases reply <;> trivial
  | succ rounds ih =>
    have hrespond : ∀ answers,
        (Asking.ask (.kbdRespond answers) (connected (kbdRounds rounds)) : Program κ _).Asks
          Op.OfKbd := by
      refine fun answers => ⟨trivial, ?_⟩
      rintro (e | reply)
      · trivial
      · exact ih
    cases reply with
    | success => trivial
    | failure ms p => trivial
    | infoRequest name instructions prompts =>
      rw [kbdRounds]
      split
      · exact hrespond []
      · refine ⟨trivial, ?_⟩
        rintro (_ | answers)
        · trivial
        · exact hrespond answers

theorem lastMethod_asks {spec : HostSpec} {pr : Progress κ} :
    (lastMethod spec pr).Asks Op.OfKbd := by
  simp only [lastMethod]
  split
  · apply Asks.bind
    · refine ⟨trivial, ?_⟩
      rintro (e | reply)
      · trivial
      · exact kbdRounds_asks
    · rintro (e | _ | _) <;> trivial
  · trivial

variable [DecidableEq κ]

theorem agentAuth_keeps {user : String} {agent : Agent} {tried : List κ} {ids : List (Option κ)}
    (h : Known hostAlias kc methods log now) :
    Keeps hostAlias kc (Ends True fun log now r => Known hostAlias kc r.2 log now)
      (agentAuth user agent tried ids methods) log now := by
  induction ids generalizing methods log now with
  | nil => exact ⟨h.tidy, h⟩
  | cons id ids ih =>
    obtain _ | key := id
    · exact ih h
    · rw [agentAuth]
      split
      · exact ih h
      · refine h.ask trivial ?_
        rintro a hk
        apply connected_safe hk.tidy
        rintro ⟨⟩ rfl
        refine hk.ask trivial ?_
        rintro (e | r) hk
        · exact ih hk
        · have hk' : Known hostAlias kc (step methods r).2 _ _ := hk.result
          rcases r with _ | ⟨ms, _ | _⟩
          · exact ⟨hk'.tidy, hk'⟩
          · exact ih hk'
          · exact ⟨hk'.tidy, hk'⟩

theorem tryAgents_keeps {user : String} {tried : List κ} {agents : List Agent}
    (h : Known hostAlias kc methods log now) :
    Keeps hostAlias kc (Ends True fun log now r => Known hostAlias kc r.2 log now)
      (tryAgents user tried agents methods) log now := by
  induction agents generalizing methods log now with
  | nil => exact ⟨h.tidy, h⟩
  | cons agent agents ih =>
    refine h.ask trivial ?_
    rintro (_ | ids) hk
    · exact ih hk
    · apply andThen_safe
      apply (agentAuth_keeps hk).mono
      rintro log now (e | ⟨_ | _ | _, methods⟩) hk
      · trivial
      · exact ⟨hk.tidy, hk⟩
      · exact ⟨hk.tidy, hk⟩
      · exact ih hk

theorem keys_keeps {agents : List Agent} {spec : HostSpec} {pr : Progress κ}
    (h : Known hostAlias kc pr.methods log now) :
    Keeps hostAlias kc (Ends True fun log now r => Known hostAlias kc r.2.methods log now)
      (keys canonical agents spec pr) log now := by
  rw [keys]
  split
  · apply andThen_safe
    apply (tryFiles_keeps h).mono
    rintro log now (e | ⟨_ | _ | _, pr⟩) hk
    · trivial
    · exact ⟨hk.tidy, hk⟩
    · exact ⟨hk.tidy, hk⟩
    · apply andThen_safe
      apply (tryAgents_keeps hk).mono
      rintro log now (e | r) hk
      · trivial
      · exact ⟨hk.tidy, hk⟩
  · exact ⟨h.tidy, h⟩

theorem authenticate_keeps {agents : List Agent} {spec : HostSpec} {notes : List String} :
    Keeps spec.hostAlias kc (fun _ _ _ => True)
      (authenticate canonical agents spec notes : Program κ _) [] kc := by
  have htidy : Tidy spec.hostAlias kc ([] : List (AuthEvent κ)) := by
    rintro pre e post hcut
    simp at hcut
  refine ⟨htidy, fun answers => ?_⟩
  have hstep {r : Except String AuthResult} : Tidy spec.hostAlias kc
      ([] ++ [(⟨.none spec.user, r⟩ : AuthEvent κ)]) := htidy.concat trivial
  simp only [serve]
  generalize answers (.none spec.user) = r
  obtain e | _ | ⟨remaining, p⟩ := r
  · exact ⟨hstep, trivial⟩
  · exact ⟨hstep, trivial⟩
  · have hk : Known spec.hostAlias kc (some remaining)
        ([] ++ [(⟨.none spec.user, .ok (.failure remaining p)⟩ : AuthEvent κ)]) kc :=
      ⟨hstep, rfl, rfl, Option.some_ne_none _⟩
    apply Safe.bind
    apply (keys_keeps hk).here_end.mono
    rintro log now (e | ⟨_ | _, pr⟩) ⟨ht, hk⟩
    · exact ⟨ht, trivial⟩
    · apply Safe.bind
      apply (passwords_keeps hk).here_end.mono
      rintro log now (e | ⟨_ | _, pr⟩) ⟨ht, hk⟩
      · exact ⟨ht, trivial⟩
      · apply Safe.mono (Q := fun log _ _ => Tidy spec.hostAlias kc log)
        · exact lastMethod_asks.safe ht (fun _ _ _ _ hop h => h.concat (allowed_of_ofKbd hop))
            fun _ _ h => h
        · exact fun _ _ _ _ => trivial
      · exact ⟨ht, trivial⟩
    · exact ⟨ht, trivial⟩

end Programs

/-- The server's answers to a password: it accepts it, or rejects it. -/
def Answered (value : String) (accepted : Bool) (log : List (AuthEvent κ)) : Prop :=
  ∃ user r, ⟨.password user value, .ok r⟩ ∈ log ∧ r.accepted = accepted

/-- The stored password is removed, or the keychain is asked to. -/
def Removed (kc : Keychain) (value : String) (log : List (AuthEvent κ)) : Prop :=
  ∃ pre key a post, log = pre ++ ⟨.delete .password key, a⟩ :: post ∧
    kc.contents pre key = some value

def Written (value : String) (log : List (AuthEvent κ)) : Prop :=
  ∃ pre key a post, log = pre ++ ⟨.set .password key value, a⟩ :: post

/-- A password entry of the keychain is read, written or deleted. -/
def Op.Touches (key : String) : Op κ → Prop
  | .get .password k | .set .password k _ | .delete .password k => k = key
  | _ => False

section Handling

variable {hostAlias value : String} {kc : Keychain} {log : List (AuthEvent κ)}

theorem passwordKey_injective : Function.Injective passwordKey := by
  intro a b h
  exact (String.append_left_inj _).mp h

theorem verdictOf_eq_some {e : AuthEvent κ} {accepted : Bool}
    (h : verdictOf value e = some accepted) :
    ∃ user r, e = ⟨.password user value, .ok r⟩ ∧ r.accepted = accepted := by
  unfold verdictOf at h
  split at h
  · rename_i user sent r
    split at h
    · rename_i hsent
      subst hsent
      exact ⟨user, r, rfl, Option.some.inj h⟩
    · cases h
  · cases h

theorem answered_of_verdict {accepted : Bool} (h : verdict value log = some accepted) :
    Answered value accepted log := by
  obtain ⟨e, hmem, he⟩ := Log.exists_of_latest h (Option.some_ne_none _)
  obtain ⟨_, he', heq⟩ := Option.map_eq_some_iff.mp he
  obtain ⟨user, r, rfl, hr⟩ := verdictOf_eq_some he'
  exact ⟨user, r, hmem, hr.trans (Option.some.inj heq)⟩

theorem Answered.append {accepted : Bool} (h : Answered value accepted log)
    (more : List (AuthEvent κ)) : Answered value accepted (log ++ more) := by
  obtain ⟨user, r, hmem, hr⟩ := h
  exact ⟨user, r, List.mem_append_left _ hmem, hr⟩

theorem Tidy.removed (h : Tidy hostAlias kc log) (hr : Removed kc value log) :
    Answered value false log := by
  obtain ⟨pre, key, a, post, rfl, hstored⟩ := hr
  obtain ⟨-, value', hstored', hverdict⟩ := h pre _ post rfl
  obtain rfl : value = value' := Option.some.inj (hstored.symm.trans hstored')
  exact (answered_of_verdict hverdict).append _

theorem Tidy.written (h : Tidy hostAlias kc log) (hw : Written value log) :
    Answered value true log := by
  obtain ⟨pre, key, a, post, rfl⟩ := hw
  exact (answered_of_verdict (h pre _ post rfl).2.2).append _

theorem Tidy.touches (h : Tidy hostAlias kc log) {e : AuthEvent κ} (he : e ∈ log) {key : String}
    (ht : e.1.Touches key) : key = passwordKey hostAlias := by
  obtain ⟨pre, post, rfl⟩ := List.append_of_mem he
  have hallowed := h pre e post rfl
  unfold Op.Touches at ht
  split at ht
  · rename_i hop
    rw [hop] at hallowed
    exact ht.symm.trans hallowed
  · rename_i hop
    rw [hop] at hallowed
    exact ht.symm.trans hallowed.1
  · rename_i hop
    rw [hop] at hallowed
    exact ht.symm.trans hallowed.1
  · exact absurd ht id

/-- Whatever the server, the user and the keychain answer, and wherever the connection drops: a
password is sent only while the server's latest list has that method, and the keychain's password
of the host, of no other host, is removed only after the server's latest answer to it was a
rejection, and written only after it was typed to be remembered and the latest answer accepted it.
So unless the server answers a password both ways, one it accepts is not removed and one it rejects
is not written. -/
theorem password_handling [DecidableEq κ] (canonical : String → String) (agents : List Agent)
    (spec : HostSpec) (notes : List String) (kc : Keychain)
    (answers : List ((op : Op κ) → Ans op)) :
    let log := ((authenticate canonical agents spec notes).run serve kc answers).events
    Tidy spec.hostAlias kc log ∧
      (∀ other, other ≠ spec.hostAlias → ∀ e ∈ log, ¬e.1.Touches (passwordKey other)) ∧
      ∀ value, ¬(Answered value true log ∧ Answered value false log) →
        (Answered value true log → ¬Removed kc value log) ∧
        (Answered value false log → ¬Written value log) := by
  intro log
  have htidy : Tidy spec.hostAlias kc log := (authenticate_keeps.run answers).1
  refine ⟨htidy, ?_, ?_⟩
  · intro other hother e he ht
    exact hother (passwordKey_injective (htidy.touches he ht))
  · rintro value hone
    constructor
    · exact fun ha hr => hone ⟨ha, htidy.removed hr⟩
    · exact fun hr hw => hone ⟨htidy.written hw, hr⟩

end Handling

/-- A server of passwords and a user who types the stored one again. -/
def retyped (r : AuthResult) : (op : Op Unit) → Ans op
  | .none _ => .ok (.failure [.password] false)
  | .sign .. | .publickey .. | .password .. | .agentKey .. => .ok r
  | .bestSupportedRsaHash => .ok ()
  | .offer .. => .ok (some r)
  | .kbdStart _ | .kbdRespond _ => .ok .success
  | .isFile _ | .trySign _ => false
  | .publicKeyOf _ => none
  | .loadSecretKey .. => .failed
  | .get .. => none
  | .set .. | .delete .. => .ok ()
  | .askPassphrase _ => none
  | .askPassword .. => some ⟨"pw", false⟩
  | .askKbd .. => none
  | .identities _ => none

/-- The server rejects the stored password, which is removed, and then accepts it. -/
theorem not_accepted_kept : ¬∀ (canonical : String → String) (agents : List Agent)
    (spec : HostSpec) (notes : List String) (kc : Keychain)
    (answers : List ((op : Op Unit) → Ans op)) (value : String),
    let log := ((authenticate canonical agents spec notes).run serve kc answers).events
    Answered value true log → ¬Removed kc value log := by
  intro h
  have hno := h id [] ⟨"h", "h", "u", []⟩ [] (fun _ => some "pw")
    [retyped .success, retyped .success, retyped (.failure [.password] false), retyped .success,
      retyped .success, retyped .success] "pw"
  apply hno
  · exact ⟨"u", .success, List.mem_of_getLast? rfl, rfl⟩
  · exact ⟨[⟨.none "u", .ok (.failure [.password] false)⟩, ⟨.get .password _, some "pw"⟩,
      ⟨.password "u" "pw", .ok (.failure [.password] false)⟩], _, .ok (), _, rfl, rfl⟩

end MultiAi.Auth
