import MultiAi.Ssh.Password

/-! # Passphrases of key files

The passphrase of a key file is remembered under its canonical path, and was once remembered
under the path as it is written. Loading the key moves it, tries it, removes it and asks for it,
and the keychain may refuse any change.
-/

namespace MultiAi.Auth

open Asking

variable {κ : Type}

/-- What a key file answers to a passphrase, or to none. -/
abbrev KeyFiles (κ : Type) := String → Option String → LoadResult κ

/-- Key files stay as they are; everything else is served as it is to passwords. -/
def serveFiles (files : KeyFiles κ) (op : Op κ) (kc : Keychain) (answers : (op : Op κ) → Ans op) :
    Ans op × Keychain :=
  match op with
  | .loadSecretKey path pass => (files path pass, kc)
  | op => serve op kc answers

/-- The file is encrypted and the passphrase opens it. -/
def Decrypts (files : KeyFiles κ) (path pass : String) : Prop :=
  files path none = .encrypted ∧ ∃ k, files path (some pass) = .key k

/-- The two entries of a file. -/
def IsEntry (canonical : String → String) (path entry : String) : Prop :=
  entry = passphraseKey canonical path ∨ entry = legacyPassphraseKey path

/-- One of the two holds a passphrase that decrypts the file. -/
def Remembers (files : KeyFiles κ) (canonical : String → String) (path : String)
    (kc : Keychain) : Prop :=
  ∃ entry, IsEntry canonical path entry ∧ ∃ pass, kc entry = some pass ∧ Decrypts files path pass

/-- The keychain refused a change. -/
def Refused : AuthEvent κ → Prop
  | ⟨.set .., .error _⟩ | ⟨.delete .., .error _⟩ => True
  | _ => False

/-- Only passphrases that decrypt the file are stored. -/
def StoresWorking (files : KeyFiles κ) (path : String) (log : List (AuthEvent κ)) : Prop :=
  ∀ e ∈ log, ∀ use key value, e.1 = .set use key value → Decrypts files path value

section Rules

variable {files : KeyFiles κ} {canonical : String → String} {path : String} {kc now : Keychain}
  {log : List (AuthEvent κ)} {ρ : Type} {notes : List String} {entry pass : String}

/-- What holds all the while a key is loaded. -/
structure Keeping (files : KeyFiles κ) (canonical : String → String) (path : String)
    (kc : Keychain) (log : List (AuthEvent κ)) (now : Keychain) : Prop where
  kept : Remembers files canonical path kc → Remembers files canonical path now
  stores : StoresWorking files path log

/-- However it is answered, a program loses no passphrase that works and stores no other. -/
def Guards (files : KeyFiles κ) (canonical : String → String) (path : String) (kc : Keychain)
    (p : Program κ ρ) (log : List (AuthEvent κ)) (now : Keychain) : Prop :=
  p.Safe (serveFiles files) (Keeping files canonical path kc) (fun _ _ _ => True) log now

theorem remembers_update (he : IsEntry canonical path entry) (hp : Decrypts files path pass) :
    Remembers files canonical path (Function.update now entry (some pass)) :=
  ⟨entry, he, pass, Function.update_self .., hp⟩

/-- A passphrase that does not work is not missed. -/
theorem Remembers.forget (h : Remembers files canonical path now)
    (hno : ∀ pass, now entry = some pass → ¬Decrypts files path pass) :
    Remembers files canonical path (Function.update now entry none) := by
  obtain ⟨entry', he, pass, hpass, hd⟩ := h
  have hne : entry' ≠ entry := by
    rintro rfl
    exact hno pass hpass hd
  exact ⟨entry', he, pass, (Function.update_of_ne hne ..).trans hpass, hd⟩

theorem Keeping.event (h : Keeping files canonical path kc log now) {e : AuthEvent κ}
    (he : ∀ use key value, e.1 = .set use key value → Decrypts files path value)
    {now' : Keychain}
    (hnow : Remembers files canonical path now → Remembers files canonical path now') :
    Keeping files canonical path kc (log ++ [e]) now' where
  kept hkc := hnow (h.kept hkc)
  stores e' hmem := by
    rcases List.mem_append.mp hmem with hmem | hmem
    · exact h.stores e' hmem
    · obtain rfl := List.mem_singleton.mp hmem
      exact he

theorem Keeping.done (h : Keeping files canonical path kc log now) (r : ρ) :
    Guards files canonical path kc (.done r) log now := ⟨h, trivial⟩

theorem Keeping.get (h : Keeping files canonical path kc log now) {key : String}
    {next : Option String → Program κ ρ}
    (hnext : ∀ log, Keeping files canonical path kc log now →
      Guards files canonical path kc (next (now key)) log now) :
    Guards files canonical path kc (.ask (.get .passphrase key) next) log now :=
  ⟨h, fun _ => hnext _ (h.event (by simp) id)⟩

theorem Keeping.load (h : Keeping files canonical path kc log now) {path' : String}
    {pass : Option String} {next : LoadResult κ → Program κ ρ}
    (hnext : ∀ log, Keeping files canonical path kc log now →
      Guards files canonical path kc (next (files path' pass)) log now) :
    Guards files canonical path kc (.ask (.loadSecretKey path' pass) next) log now :=
  ⟨h, fun _ => hnext _ (h.event (by simp) id)⟩

theorem Keeping.prompt (h : Keeping files canonical path kc log now) {path' : String}
    {next : Option Secret → Program κ ρ}
    (hnext : ∀ a log, Keeping files canonical path kc log now →
      Guards files canonical path kc (next a) log now) :
    Guards files canonical path kc (.ask (.askPassphrase path') next) log now :=
  ⟨h, fun _ => hnext _ _ (h.event (by simp) id)⟩

/-- A passphrase that works is stored, or the keychain refuses it. -/
theorem Keeping.set (h : Keeping files canonical path kc log now)
    (he : IsEntry canonical path entry) (hp : Decrypts files path pass)
    {next : Except String Unit → Program κ ρ}
    (hnext : ∀ a log now, Keeping files canonical path kc log now →
      (a = .ok () → now entry = some pass) → Guards files canonical path kc (next a) log now) :
    Guards files canonical path kc (.ask (.set .passphrase entry pass) next) log now := by
  refine ⟨h, fun answers => ?_⟩
  have hstored : ∀ use key value, (Op.set .passphrase entry pass : Op κ) = .set use key value →
      Decrypts files path value := by
    rintro _ _ _ ⟨⟩
    exact hp
  simp only [serveFiles, serve]
  cases answers (.set .passphrase entry pass) with
  | error e => exact hnext _ _ _ (h.event hstored id) (by simp)
  | ok =>
    exact hnext _ _ _ (h.event hstored fun _ => remembers_update he hp) fun _ =>
      Function.update_self ..

/-- An entry that the other one makes up for, or that does not work, is removed, or the keychain
refuses it. -/
theorem Keeping.delete (h : Keeping files canonical path kc log now)
    (hno : Remembers files canonical path now →
      Remembers files canonical path (Function.update now entry none))
    {next : Except String Unit → Program κ ρ}
    (hnext : ∀ a log now, Keeping files canonical path kc log now →
      Guards files canonical path kc (next a) log now) :
    Guards files canonical path kc (.ask (.delete .passphrase entry) next) log now := by
  refine ⟨h, fun answers => ?_⟩
  simp only [serveFiles, serve]
  cases answers (.delete .passphrase entry) with
  | error e => exact hnext _ _ _ (h.event (by simp) id)
  | ok => exact hnext _ _ _ (h.event (by simp) hno)

end Rules

section Programs

variable {files : KeyFiles κ} {canonical : String → String} {path : String} {kc now : Keychain}
  {log : List (AuthEvent κ)} {notes : List String}

theorem migratePassphrase_guards (h : Keeping files canonical path kc log now)
    (henc : files path none = .encrypted) :
    (migratePassphrase path (passphraseKey canonical path) notes).Safe (serveFiles files)
      (Keeping files canonical path kc) (fun log now _ => Keeping files canonical path kc log now)
      log now := by
  refine Safe.mono (Safe.here_end (Q := fun _ _ _ => True) ?_) fun _ _ _ hq => hq.1
  show Guards files canonical path kc _ log now
  simp only [migratePassphrase]
  split
  · exact h.done _
  · rename_i hne
    refine h.get fun log h => ?_
    cases hkey : now (passphraseKey canonical path) with
    | some _ => exact h.done _
    | none =>
      refine h.get fun log h => ?_
      cases hold : now (legacyPassphraseKey path) with
      | none => exact h.done _
      | some pass =>
        refine h.load fun log h => ?_
        -- an old passphrase that does not work goes
        have hremove : (∀ k, files path (some pass) ≠ .key k) →
            Remembers files canonical path now → Remembers files canonical path
              (Function.update now (legacyPassphraseKey path) none) := by
          intro hfile hr
          refine hr.forget fun pass' hpass' hd => ?_
          obtain ⟨k, hk⟩ := hd.2
          cases hold.symm.trans hpass'
          exact hfile k hk
        cases hfile : files path (some pass) with
        | key k =>
          refine h.set (.inl rfl) ⟨henc, k, hfile⟩ fun a log now h hstored => ?_
          cases a with
          | error e => exact h.done _
          | ok =>
            refine h.delete (fun _ => ⟨passphraseKey canonical path, .inl rfl, pass, ?_, henc, k,
              hfile⟩) fun a log now h => h.done _
            rw [Function.update_of_ne (Ne.symm hne), hstored rfl]
        | encrypted =>
          exact h.delete (hremove (by simp [hfile])) fun a log now h => h.done _
        | failed =>
          exact h.delete (hremove (by simp [hfile])) fun a log now h => h.done _

theorem promptPassphrase_guards (h : Keeping files canonical path kc log now)
    (henc : files path none = .encrypted) :
    Guards files canonical path kc
      (promptPassphrase path (passphraseKey canonical path) notes) log now := by
  refine h.prompt fun a log h => ?_
  cases a with
  | none => exact h.done _
  | some s =>
    refine h.load fun log h => ?_
    cases hfile : files path (some s.value) with
    | key k =>
      by_cases hs : s.remember
      · simp only [hs, if_true]
        exact h.set (.inl rfl) ⟨henc, k, hfile⟩ fun a log now h _ => h.done _
      · simp only [hs]
        exact h.done _
    | encrypted => exact h.done _
    | failed => exact h.done _

theorem loadKey_guards (h : Keeping files canonical path kc log now) :
    Guards files canonical path kc (loadKey canonical path notes) log now := by
  refine h.load fun log h => ?_
  cases henc : files path none with
  | key k => exact h.done _
  | failed => exact h.done _
  | encrypted =>
    apply Safe.bind
    apply (migratePassphrase_guards h henc).mono
    rintro log now ⟨_ | k, notes⟩ h
    · refine h.get fun log h => ?_
      cases hkey : now (passphraseKey canonical path) with
      | none => exact promptPassphrase_guards h henc
      | some pass =>
        refine h.load fun log h => ?_
        have hremove : (∀ k, files path (some pass) ≠ .key k) →
            Remembers files canonical path now → Remembers files canonical path
              (Function.update now (passphraseKey canonical path) none) := by
          intro hfile hr
          refine hr.forget fun pass' hpass' hd => ?_
          obtain ⟨k, hk⟩ := hd.2
          cases hkey.symm.trans hpass'
          exact hfile k hk
        cases hfile : files path (some pass) with
        | key k => exact h.done _
        | encrypted =>
          exact h.delete (hremove (by simp [hfile])) fun a log now h =>
            promptPassphrase_guards h henc
        | failed =>
          exact h.delete (hremove (by simp [hfile])) fun a log now h =>
            promptPassphrase_guards h henc
    · exact h.done _

/-- A passphrase that is only under the old key is moved, unless the keychain refuses it. -/
theorem loadKey_moves (notes : List String) {pass : String} {k : κ}
    (hnew : kc (passphraseKey canonical path) = none)
    (hold : kc (legacyPassphraseKey path) = some pass) (henc : files path none = .encrypted)
    (hfile : files path (some pass) = .key k) :
    (loadKey canonical path notes).Safe (serveFiles files) (fun _ _ => True)
      (fun log now r => (∀ e ∈ log, ¬Refused e) → r = (some k, notes) ∧
        now (passphraseKey canonical path) = some pass ∧ now (legacyPassphraseKey path) = none ∧
          ∀ e ∈ log, ∀ p, e.1 ≠ .askPassphrase p) [] kc := by
  have hne : legacyPassphraseKey path ≠ passphraseKey canonical path := by
    intro heq
    rw [heq, hnew] at hold
    cases hold
  simp only [loadKey, migratePassphrase, Safe, serveFiles, serve, henc, hne, if_false, bind_ask,
    hnew, hold, hfile, true_and]
  intro _ _ _ _ v
  cases hset : v (.set .passphrase (passphraseKey canonical path) pass) with
  | error e =>
    refine ⟨True.intro, fun hnone => (hnone _ (List.mem_append_right _ (List.mem_singleton.mpr rfl))
      ?_).elim⟩
    trivial
  | ok =>
    refine ⟨True.intro, fun v => ?_⟩
    simp only [serveFiles, serve]
    cases hdel : v (.delete .passphrase (legacyPassphraseKey path)) with
    | error e =>
      refine ⟨True.intro, fun hnone => (hnone _ (List.mem_append_right _
        (List.mem_singleton.mpr rfl)) ?_).elim⟩
      trivial
    | ok =>
      refine ⟨True.intro, fun _ => ⟨rfl, ?_, Function.update_self .., by simp⟩⟩
      simp only [Keychain.after, Function.update_of_ne hne.symm, Function.update_self]

/-- Whatever the file, the user and the keychain answer, and wherever loading the key stops: if
one of the two entries held a passphrase that decrypts the file, one of them still does, and only
such passphrases are stored. If only the old entry held one and no change was refused, it is then
under the current key alone, and the private key was found without asking. -/
theorem passphrase_kept (files : KeyFiles κ) (canonical : String → String) (path : String)
    (notes : List String) (kc : Keychain) (answers : List ((op : Op κ) → Ans op)) :
    let run := (loadKey canonical path notes).run (serveFiles files) kc answers
    (Remembers files canonical path kc → Remembers files canonical path run.state) ∧
      StoresWorking files path run.events ∧
      ∀ pass, kc (passphraseKey canonical path) = none →
        kc (legacyPassphraseKey path) = some pass → Decrypts files path pass →
        (∀ e ∈ run.events, ¬Refused e) → ∀ key notes', run.result = some (key, notes') →
          run.state (passphraseKey canonical path) = some pass ∧
            run.state (legacyPassphraseKey path) = none ∧
            (∃ k, files path (some pass) = .key k ∧ key = some k) ∧
            ∀ e ∈ run.events, ∀ p, e.1 ≠ .askPassphrase p := by
  intro run
  have hstart : Keeping files canonical path kc [] kc := ⟨id, by simp [StoresWorking]⟩
  have hguards : Guards files canonical path kc (loadKey canonical path notes) [] kc :=
    loadKey_guards hstart
  have hkept := (hguards.run answers).1
  refine ⟨hkept.kept, hkept.stores, ?_⟩
  rintro pass hnew hold ⟨henc, k, hfile⟩ hnone key notes' hresult
  obtain ⟨hr, hmoved, hremoved, hask⟩ :=
    ((loadKey_moves notes hnew hold henc hfile).run answers).2 _ hresult hnone
  cases hr
  exact ⟨hmoved, hremoved, ⟨k, hfile, rfl⟩, hask⟩

end Programs

end MultiAi.Auth
