import MultiAi.Library.Lifting
import MultiAi.Library.Log
import MultiAi.Ssh.Auth

/-! # Where secrets come from

What a client sends to a server it was given for that server: by the keychain under the name of the
host, by the user who was asked for it, or by the key files and agents that the host is to have.
-/

namespace MultiAi.Auth

open Asking

variable {κ ρ τ : Type}

/-- A reply of the server to the questions so far. -/
def Replied (user : String) (past : List (AuthEvent κ)) (reply : KbdReply) : Prop :=
  ⟨.kbdStart user, .ok reply⟩ ∈ past ∨ ∃ answers, ⟨.kbdRespond answers, .ok reply⟩ ∈ past

/-- A private key was read from one of the files. -/
def Loaded (paths : List String) (past : List (AuthEvent κ)) (key : κ) : Prop :=
  ∃ path ∈ paths, ∃ pass, ⟨.loadSecretKey path pass, .key key⟩ ∈ past

/-- A passphrase of a file is one that the keychain has for it, or one that was typed for it. -/
def Unlocks (canonical : String → String) (past : List (AuthEvent κ)) (path pass : String) : Prop :=
  (∃ key, (key = passphraseKey canonical path ∨ key = legacyPassphraseKey path) ∧
      ⟨.get .passphrase key, some pass⟩ ∈ past) ∨
    ∃ remember, ⟨.askPassphrase path, some ⟨pass, remember⟩⟩ ∈ past

/-- What may be asked, and where what is sent comes from. -/
def Sourced (canonical : String → String) (spec : HostSpec) (past : List (AuthEvent κ)) :
    Op κ → Prop
  | .none user | .kbdStart user => user = spec.user
  | .offer user key => user = spec.user ∧
      ∃ path ∈ spec.identityFiles, ⟨.publicKeyOf path, some key⟩ ∈ past
  | .password user value => user = spec.user ∧
      (⟨.get .password (passwordKey spec.hostAlias), some value⟩ ∈ past ∨
        ∃ remember, ⟨.askPassword spec.user spec.host, some ⟨value, remember⟩⟩ ∈ past)
  | .askPassword user host => user = spec.user ∧ host = spec.host
  -- A request without prompts is answered without asking the user.
  | .kbdRespond answers => answers = [] ∨ ∃ name instructions prompts,
      ⟨.askKbd name instructions prompts, some answers⟩ ∈ past
  | .askKbd name instructions prompts =>
      Replied spec.user past (.infoRequest name instructions prompts)
  | .publickey user key => user = spec.user ∧ Loaded spec.identityFiles past key
  | .sign _ signer => ∀ key ∈ signer, Loaded spec.identityFiles past key
  | .agentKey user agent key => user = spec.user ∧
      ∃ ids, ⟨.identities agent, some ids⟩ ∈ past ∧ some key ∈ ids
  | .loadSecretKey path pass => path ∈ spec.identityFiles ∧
      ∀ value ∈ pass, Unlocks canonical past path value
  | .askPassphrase path | .isFile path | .publicKeyOf path => path ∈ spec.identityFiles
  | .get .password key | .delete .password key => key = passwordKey spec.hostAlias
  | .set .password key value => key = passwordKey spec.hostAlias ∧
      ⟨.askPassword spec.user spec.host, some ⟨value, true⟩⟩ ∈ past
  | .get .passphrase key | .delete .passphrase key => ∃ path ∈ spec.identityFiles,
      key = passphraseKey canonical path ∨ key = legacyPassphraseKey path
  | .set .passphrase key value => ∃ path ∈ spec.identityFiles,
      key = passphraseKey canonical path ∧
      (∃ k, ⟨.loadSecretKey path (some value), .key k⟩ ∈ past) ∧
      (⟨.get .passphrase (legacyPassphraseKey path), some value⟩ ∈ past ∨
        ⟨.askPassphrase path, some ⟨value, true⟩⟩ ∈ past)
  | .bestSupportedRsaHash | .trySign _ | .identities _ => True

/-- Each operation has its source. -/
def Careful (canonical : String → String) (spec : HostSpec) (log : List (AuthEvent κ)) : Prop :=
  Log.Each (fun past e => Sourced canonical spec past e.1) log

section Programs

variable {canonical : String → String} {spec : HostSpec} {log : List (AuthEvent κ)}
  {Q : List (AuthEvent κ) → ρ → Prop} {R : List (AuthEvent κ) → τ → Prop}

variable (canonical spec) in
/-- However a program is answered, each operation has its source, and `Q` holds at the end. -/
def Leads (Q : List (AuthEvent κ) → ρ → Prop) (p : Program κ ρ) (log : List (AuthEvent κ)) : Prop :=
  p.Safe anyhow (fun log _ => Careful canonical spec log)
    (fun log _ r => Careful canonical spec log ∧ Q log r) log ()

theorem Leads.done {r : ρ} (h : Careful canonical spec log) (hq : Q log r) :
    Leads canonical spec Q (.done r) log := ⟨h, h, hq⟩

theorem Leads.ask {op : Op κ} {next : Ans op → Program κ ρ} (h : Careful canonical spec log)
    (hop : Sourced canonical spec log op)
    (hnext : ∀ a, Careful canonical spec (log ++ [⟨op, a⟩]) →
      Leads canonical spec Q (next a) (log ++ [⟨op, a⟩])) :
    Leads canonical spec Q (.ask op next) log :=
  ⟨h, fun _ => hnext _ (Log.each_concat.mpr ⟨h, hop⟩)⟩

theorem Leads.bind {p : Program κ ρ} {f : ρ → Program κ τ} (hp : Leads canonical spec Q p log)
    (hf : ∀ log r, Careful canonical spec log → Q log r → Leads canonical spec R (f r) log) :
    Leads canonical spec R (p.bind f) log :=
  Safe.bind (hp.mono fun _ _ _ h => hf _ _ h.1 h.2)

end Programs

section Files

variable {canonical : String → String} {spec : HostSpec} {log : List (AuthEvent κ)}
  {path : String} {notes : List String}

/-- A key that a program comes up with was read from one of the files. -/
def Reads (spec : HostSpec) (log : List (AuthEvent κ)) (r : Option κ × List String) : Prop :=
  ∀ key ∈ r.1, Loaded spec.identityFiles log key

theorem reads_some {key : κ} (pass : Option String) (hp : path ∈ spec.identityFiles)
    (hm : ⟨.loadSecretKey path pass, .key key⟩ ∈ log) : Reads spec log (some key, notes) := by
  rintro _ ⟨⟩
  exact ⟨path, hp, pass, hm⟩

theorem reads_none : Reads spec log (none, notes) := by
  rintro _ ⟨⟩

theorem migratePassphrase_leads (hp : path ∈ spec.identityFiles)
    (hc : Careful canonical spec log) :
    Leads canonical spec (Reads spec)
      (migratePassphrase path (passphraseKey canonical path) notes) log := by
  have hcurrent : Sourced canonical spec log (.get .passphrase (passphraseKey canonical path)) :=
    ⟨path, hp, .inl rfl⟩
  simp only [migratePassphrase]
  split
  · exact .done hc reads_none
  · refine .ask hc hcurrent ?_
    rintro (_ | _) hc
    · refine .ask hc ⟨path, hp, .inr rfl⟩ ?_
      rintro (_ | pass) hc
      · exact .done hc reads_none
      · refine .ask hc ⟨hp, ?_⟩ ?_
        · rintro _ ⟨⟩
          exact .inl ⟨_, .inr rfl, by simp⟩
        rintro (k | _ | _) hc
        · refine .ask hc ⟨path, hp, rfl, ⟨k, by simp⟩, .inl (by simp)⟩ ?_
          rintro (e | ⟨⟩) hc
          · exact .done hc (reads_some (some pass) hp (by simp))
          · exact .ask hc ⟨path, hp, .inr rfl⟩ fun r hc =>
              .done hc (reads_some (some pass) hp (by simp))
        · exact .ask hc ⟨path, hp, .inr rfl⟩ fun r hc => .done hc reads_none
        · exact .ask hc ⟨path, hp, .inr rfl⟩ fun r hc => .done hc reads_none
    · exact .done hc reads_none

theorem promptPassphrase_leads (hp : path ∈ spec.identityFiles)
    (hc : Careful canonical spec log) :
    Leads canonical spec (Reads spec)
      (promptPassphrase path (passphraseKey canonical path) notes) log := by
  rw [promptPassphrase]
  refine .ask hc hp ?_
  rintro (_ | ⟨value, remember⟩) hc
  · exact .done hc reads_none
  · refine .ask hc ⟨hp, ?_⟩ ?_
    · rintro _ ⟨⟩
      exact .inr ⟨remember, by simp⟩
    rintro (k | _ | _) hc
    · dsimp only
      split_ifs with hremember
      · rw [hremember] at hc ⊢
        exact .ask hc ⟨path, hp, rfl, ⟨k, by simp⟩, .inr (by simp)⟩ fun r hc =>
          .done hc (reads_some (some value) hp (by simp))
      · exact .done hc (reads_some (some value) hp (by simp))
    · exact .done hc reads_none
    · exact .done hc reads_none

theorem loadKey_leads (hp : path ∈ spec.identityFiles) (hc : Careful canonical spec log) :
    Leads canonical spec (Reads spec) (loadKey canonical path notes) log := by
  rw [loadKey]
  refine .ask hc ⟨hp, by rintro _ ⟨⟩⟩ ?_
  rintro (k | _ | _) hc
  · exact .done hc (reads_some none hp (by simp))
  · refine (migratePassphrase_leads hp hc).bind ?_
    rintro log ⟨_ | k, notes⟩ hc hk
    · refine .ask hc ⟨path, hp, .inl rfl⟩ ?_
      rintro (_ | pass) hc
      · exact promptPassphrase_leads hp hc
      · refine .ask hc ⟨hp, ?_⟩ ?_
        · rintro _ ⟨⟩
          exact .inl ⟨_, .inl rfl, by simp⟩
        rintro (k | _ | _) hc
        · exact .done hc (reads_some (some pass) hp (by simp))
        · exact .ask hc ⟨path, hp, .inl rfl⟩ fun r hc => promptPassphrase_leads hp hc
        · exact .ask hc ⟨path, hp, .inl rfl⟩ fun r hc => promptPassphrase_leads hp hc
    · exact .done hc hk
  · exact .done hc reads_none

/-- What signs, if anything does, is a key that was read from one of the files. -/
theorem signFile_leads {key : κ} (hp : path ∈ spec.identityFiles)
    (hc : Careful canonical spec log) :
    Leads canonical spec (fun _ _ => True) (signFile canonical path key notes) log := by
  have hdone : ∀ {r : Except String AuthResult} {declined : Bool} {notes : List String}
      {log : List (AuthEvent κ)}, Careful canonical spec log →
      Leads canonical spec (fun _ _ => True)
        (connected (fun r => .done (.ok (r, declined, notes))) r) log :=
    fun hc => by
      rename_i r _ _ _
      cases r <;> exact .done hc trivial
  rw [signFile]
  refine (loadKey_leads hp hc).bind ?_
  rintro log ⟨_ | k, notes⟩ hc hk
  · exact .ask hc (by rintro _ ⟨⟩) fun a hc => hdone hc
  · refine .ask hc trivial ?_
    rintro (_ | _) hc
    · exact .ask hc (by rintro _ ⟨⟩) fun a hc => hdone hc
    · refine .ask hc ?_ fun a hc => hdone hc
      rintro _ ⟨⟩
      obtain ⟨path, hp, pass, hm⟩ := hk k rfl
      exact ⟨path, hp, pass, List.mem_append_left _ hm⟩

theorem offerFile_leads {key : κ} (hp : path ∈ spec.identityFiles)
    (hkey : ⟨.publicKeyOf path, some key⟩ ∈ log) (hc : Careful canonical spec log) :
    Leads canonical spec (fun _ _ => True) (offerFile canonical spec.user path key notes) log := by
  rw [offerFile]
  refine .ask hc ⟨rfl, path, hp, hkey⟩ ?_
  rintro (e | _ | r) hc
  · exact .done hc trivial
  · exact signFile_leads hp hc
  · exact .done hc trivial

theorem afterAttempt_leads {next : Progress κ → Program κ (Except SshError (Step × Progress κ))}
    {pr : Progress κ} {r : AuthResult} (hc : Careful canonical spec log)
    (hnext : ∀ pr, Leads canonical spec (fun _ _ => True) (next pr) log) :
    Leads canonical spec (fun _ _ => True) (afterAttempt next pr r) log := by
  rw [afterAttempt]
  split
  · exact hnext _
  · exact .done hc trivial

theorem tryFiles_leads {paths : List String} {pr : Progress κ}
    (hp : ∀ path ∈ paths, path ∈ spec.identityFiles) (hc : Careful canonical spec log) :
    Leads canonical spec (fun _ _ => True) (tryFiles canonical spec.user paths pr) log := by
  induction paths generalizing pr log with
  | nil => exact .done hc trivial
  | cons path paths ih =>
    have hpath := hp path List.mem_cons_self
    have hrest : ∀ {log : List (AuthEvent κ)} (pr : Progress κ), Careful canonical spec log →
        Leads canonical spec (fun _ _ => True) (tryFiles canonical spec.user paths pr) log :=
      fun pr hc => ih (fun p hm => hp p (List.mem_cons_of_mem _ hm)) hc
    rw [tryFiles]
    refine .ask hc hpath ?_
    rintro (_ | _) hc
    · exact hrest _ hc
    · refine .ask hc trivial ?_
      rintro (e | ⟨⟩) hc
      · exact .done hc trivial
      · refine .ask hc hpath ?_
        rintro (_ | key) hc
        · refine (loadKey_leads hpath hc).bind ?_
          rintro log ⟨_ | k, notes⟩ hc hk
          · exact hrest _ hc
          · refine .ask hc ⟨rfl, hk k rfl⟩ ?_
            rintro (e | r) hc
            · exact .done hc trivial
            · exact afterAttempt_leads hc fun pr => hrest pr hc
        · refine (offerFile_leads hpath (by simp) hc).bind ?_
          rintro log (e | ⟨r, declined, notes⟩) hc -
          · exact .done hc trivial
          · exact afterAttempt_leads hc fun pr => hrest pr hc

end Files

section Methods

variable {canonical : String → String} {spec : HostSpec} {log : List (AuthEvent κ)}

theorem promptPassword_leads {pr : Progress κ} (hc : Careful canonical spec log) :
    Leads canonical spec (fun _ _ => True) (promptPassword spec pr) log := by
  rw [promptPassword]
  split
  · refine .ask hc ⟨rfl, rfl⟩ ?_
    rintro (_ | ⟨value, remember⟩) hc
    · exact .done hc trivial
    · refine .ask hc ⟨rfl, .inr ⟨remember, by simp⟩⟩ ?_
      rintro (e | r) hc
      · exact .done hc trivial
      · dsimp only [connected]
        split_ifs with hkept
        · rw [hkept.2] at hc ⊢
          exact .ask hc ⟨rfl, by simp⟩ fun a hc => .done hc trivial
        · exact .done hc trivial
  · exact .done hc trivial

theorem passwords_leads {pr : Progress κ} (hc : Careful canonical spec log) :
    Leads canonical spec (fun _ _ => True) (passwords spec pr) log := by
  rw [passwords]
  split
  · refine .ask hc rfl ?_
    rintro (_ | pw) hc
    · exact promptPassword_leads hc
    · refine .ask hc ⟨rfl, .inl (by simp)⟩ ?_
      rintro (e | r) hc
      · exact .done hc trivial
      · dsimp only [connected]
        split
        · exact .done hc trivial
        · exact .done hc trivial
        · exact .ask hc rfl fun a hc => promptPassword_leads hc
  · exact .done hc trivial

/-- The user is asked what the server asks. -/
theorem kbdRounds_leads {rounds : ℕ} {reply : KbdReply} (hc : Careful canonical spec log)
    (hr : Replied spec.user log reply) :
    Leads canonical spec (fun _ _ => True) (kbdRounds rounds reply) log := by
  induction rounds generalizing reply log with
  | zero => cases reply <;> exact .done hc trivial
  | succ rounds ih =>
    have hrespond : ∀ {log : List (AuthEvent κ)} {answers : List String},
        Careful canonical spec log → Sourced canonical spec log (.kbdRespond answers) →
        Leads canonical spec (fun _ _ => True)
          (Asking.ask (.kbdRespond answers) (connected (kbdRounds rounds))) log := by
      intro log answers hc hop
      refine .ask hc hop ?_
      rintro (e | reply) hc
      · exact .done hc trivial
      · exact ih hc (.inr ⟨answers, by simp⟩)
    cases reply with
    | success => exact .done hc trivial
    | failure ms p => exact .done hc trivial
    | infoRequest name instructions prompts =>
      rw [kbdRounds]
      split
      · exact hrespond hc (.inl rfl)
      · refine .ask hc hr ?_
        rintro (_ | answers) hc
        · exact .done hc trivial
        · exact hrespond hc (.inr ⟨name, instructions, prompts, by simp⟩)

theorem lastMethod_leads {pr : Progress κ} (hc : Careful canonical spec log) :
    Leads canonical spec (fun _ _ => True) (lastMethod spec pr) log := by
  simp only [lastMethod]
  split
  · refine Leads.bind (Q := fun _ _ => True) ?_ ?_
    · refine .ask hc rfl ?_
      rintro (e | reply) hc
      · exact .done hc trivial
      · exact kbdRounds_leads hc (.inl (by simp))
    · rintro log (e | _ | _) hc - <;> exact .done hc trivial
  · exact .done hc trivial

variable [DecidableEq κ]

theorem agentAuth_leads {agent : Agent} {tried : List κ} {ids all : List (Option κ)}
    {methods : Option (List MethodKind)} (hc : Careful canonical spec log)
    (hall : ⟨.identities agent, some all⟩ ∈ log) (hids : ids ⊆ all) :
    Leads canonical spec (fun _ _ => True) (agentAuth spec.user agent tried ids methods) log := by
  induction ids generalizing methods log with
  | nil => exact .done hc trivial
  | cons id ids ih =>
    rw [List.cons_subset] at hids
    obtain ⟨hid, hids⟩ := hids
    obtain _ | key := id
    · exact ih hc hall hids
    · rw [agentAuth]
      split
      · exact ih hc hall hids
      · refine .ask hc trivial ?_
        rintro (e | ⟨⟩) hc
        · exact .done hc trivial
        · have hall' := List.mem_append_left [⟨.bestSupportedRsaHash, .ok ()⟩] hall
          refine .ask hc ⟨rfl, all, hall', hid⟩ ?_
          rintro (e | r) hc
          · exact ih hc (List.mem_append_left _ hall') hids
          · dsimp only
            split
            · exact ih hc (List.mem_append_left _ hall') hids
            · exact .done hc trivial

theorem tryAgents_leads {tried : List κ} {agents : List Agent}
    {methods : Option (List MethodKind)} (hc : Careful canonical spec log) :
    Leads canonical spec (fun _ _ => True) (tryAgents spec.user tried agents methods) log := by
  induction agents generalizing methods log with
  | nil => exact .done hc trivial
  | cons agent agents ih =>
    rw [tryAgents]
    refine .ask hc trivial ?_
    rintro (_ | ids) hc
    · exact ih hc
    · refine (agentAuth_leads hc (by simp) (List.Subset.refl ids)).bind ?_
      rintro log (e | ⟨_ | _ | _, methods⟩) hc -
      · exact .done hc trivial
      · exact .done hc trivial
      · exact .done hc trivial
      · exact ih hc

theorem keys_leads {agents : List Agent} {pr : Progress κ} (hc : Careful canonical spec log) :
    Leads canonical spec (fun _ _ => True) (keys canonical agents spec pr) log := by
  rw [keys]
  split
  · refine (tryFiles_leads (fun _ hp => hp) hc).bind ?_
    rintro log (e | ⟨_ | _ | _, pr⟩) hc -
    · exact .done hc trivial
    · exact .done hc trivial
    · exact .done hc trivial
    · refine (tryAgents_leads hc).bind ?_
      rintro log (e | r) hc - <;> exact .done hc trivial
  · exact .done hc trivial

/-- Whatever is answered, what is sent to a server was given for it. -/
theorem authenticate_leads {agents : List Agent} {notes : List String} :
    Leads canonical spec (fun _ _ => True)
      (authenticate canonical agents spec notes : Program κ _) [] := by
  refine .ask Log.each_nil rfl ?_
  rintro (e | _ | ⟨remaining, p⟩) hc
  · exact .done hc trivial
  · exact .done hc trivial
  · refine (keys_leads hc).bind ?_
    rintro log (e | ⟨_ | _, pr⟩) hc -
    · exact .done hc trivial
    · refine (passwords_leads hc).bind ?_
      rintro log (e | ⟨_ | _, pr⟩) hc -
      · exact .done hc trivial
      · exact lastMethod_leads hc
      · exact .done hc trivial
    · exact .done hc trivial

/-- Whatever the server, the keychain, the user, the agents and the key files answer: what is sent
to a server was given for it, and what the keychain keeps for other hosts is left alone. -/
theorem secrets_sourced (canonical : String → String) (agents : List Agent) (spec : HostSpec)
    (notes : List String) (vs : List ((op : Op κ) → Ans op)) :
    Careful canonical spec ((authenticate canonical agents spec notes).run anyhow () vs).events :=
  (authenticate_leads.run vs).1

end Methods

end MultiAi.Auth
