import MultiAi.Ssh.Chains

/-! # The order of the client

A client that has all that the server may ask for gets in exactly if some chain follows its order.
After a partial success it goes on with the methods that come later in the order, so a server that
then wants an earlier one is never satisfied.
-/

namespace MultiAi.Auth

open Asking

section Standing

variable {κ : Type} (server : Server κ) (client : Client κ) (canonical : String → String)
  (spec : HostSpec)

/-- Where the client stands between two attempts. -/
structure At (passed : List Factor) (methods : Option (List MethodKind)) (w : World) : Prop where
  reached : w.passed = passed
  offered : methods = some (server.methods passed)
  password : HasPassword server client canonical spec w.keychain

/-- What the result of an attempt tells. -/
def Tells (m : Factor) (passed : List Factor) (w : World) :
    Step → Option (List MethodKind) → Prop
  | .failed, methods => At server client canonical spec passed methods w
  | .done, _ => passed ++ [m] ∈ server.chains
  | .partialSuccess, methods => passed ++ [m] ∉ server.chains ∧
      At server client canonical spec (passed ++ [m]) methods w

/-- A program ends without an error, and `Q` holds of its result. -/
def Gives {α : Type} (Q : World → α → Prop) (w : World) : Except SshError α → Prop
  | .ok a => Q w a
  | .error _ => False

end Standing

section Client

variable {κ : Type} {server : Server κ} {client : Client κ}
  {canonical : String → String} {spec : HostSpec} {passed : List Factor} {m : Factor}
  {methods : Option (List MethodKind)} {w : World} {α ρ : Type}

theorem At.offers_iff (h : At server client canonical spec passed methods w) :
    offers methods m.kind = true ↔ m ∈ nextFactors server.chains passed := by
  have hinj : Function.Injective Factor.kind := by
    intro a b hab
    cases a <;> cases b <;> first | rfl | cases hab
  rw [h.offered, offers, Option.all_some, List.contains_iff_mem, Server.methods,
    List.mem_map_of_injective hinj]

theorem complete_tells (h : At server client canonical spec passed methods w) (right : Bool) :
    Tells server client canonical spec m passed (server.complete m right w).2
      (step methods (server.complete m right w).1).1
      (step methods (server.complete m right w).1).2 := by
  simp only [Server.complete, h.reached]
  split
  · split
    · rename_i hc
      exact hc
    · rename_i hc
      exact ⟨hc, rfl, rfl, h.password⟩
  · exact ⟨h.reached, rfl, h.password⟩

theorem complete_right {right : Bool} (h : At server client canonical spec passed methods w)
    (hm : m ∈ nextFactors server.chains passed) (hr : right = true) :
    (step methods (server.complete m right w).1).1 ≠ .failed := by
  simp only [Server.complete, h.reached, hr, hm, and_self, if_true]
  split <;> simp [step]

theorem HasPassword.after {keychain : Keychain} {path : String} {op : Op κ} {a : Ans op}
    (h : HasPassword server client canonical spec keychain) (hp : path ∈ spec.identityFiles)
    (hop : op.OfKeyFile canonical path) :
    HasPassword server client canonical spec (keychain.after ⟨op, a⟩) := by
  rcases h with ⟨pw, hstored, haccepts, hapart⟩ | htyped
  · refine .inl ⟨pw, ?_, haccepts, hapart⟩
    have hkey : ∀ key, key = passphraseKey canonical path ∨ key = legacyPassphraseKey path →
        passwordKey spec.hostAlias ≠ key := by
      rintro key (rfl | rfl)
      · exact (hapart path hp).1
      · exact (hapart path hp).2
    cases op <;> try exact hstored
    case set use key value =>
      obtain _ | ⟨⟩ := a
      · exact hstored
      · exact (Function.update_of_ne (hkey key hop.2) _ _).trans hstored
    case delete use key =>
      obtain _ | ⟨⟩ := a
      · exact hstored
      · exact (Function.update_of_ne (hkey key hop.2) _ _).trans hstored
  · exact .inr htyped

variable [DecidableEq κ]

theorem andThen_meets {Q : World → α → Prop} {R : World → Except SshError ρ → Prop}
    {p : Program κ (Except SshError α)} {f : α → Program κ (Except SshError ρ)}
    (hp : p.Meets (serveChains server client) (Gives Q) w)
    (hf : ∀ w a, Q w a → (f a).Meets (serveChains server client) R w) :
    (andThen p f).Meets (serveChains server client) R w := by
  apply hp.bind
  rintro w (e | a) hq
  · exact hq.elim
  · exact hf w a hq

/-- Passwords stay as they are while the key of a file is loaded. -/
theorem At.loadKey {path : String} {notes : List String}
    (h : At server client canonical spec passed methods w) (hp : path ∈ spec.identityFiles) :
    (loadKey canonical path notes : Program κ _).Meets (serveChains server client)
      (fun w _ => At server client canonical spec passed methods w) w := by
  apply loadKey_asks.meets h
  intro w op answers hop hw
  cases op <;> first
    | exact absurd hop id
    | exact hw
    | exact ⟨hw.reached, hw.offered, hw.password.after hp hop⟩

theorem migratePassphrase_key {path key' : String} {key : κ} {notes : List String}
    (h : KeyFile server client path key) :
    (migratePassphrase path key' notes : Program κ _).Meets (serveChains server client)
      (fun _ r => r.1 = none ∨ r.1 = some key) w := by
  simp only [migratePassphrase]
  split
  · exact .done (.inl rfl)
  · refine .ask fun _ => ?_
    simp only [serveChains, serve]
    split
    · exact .done (.inl rfl)
    · refine .ask fun _ => ?_
      simp only [serveChains, serve]
      split
      · exact .done (.inl rfl)
      · rename_i pass _
        refine .ask fun _ => ?_
        simp only [serveChains]
        split
        · rename_i k hload
          obtain rfl := h.only _ _ hload
          refine .ask fun _ => ?_
          split
          · exact .ask fun _ => .done (.inr rfl)
          · exact .done (.inr rfl)
        · exact .ask fun _ => .done (.inl rfl)

/-- The key of a usable file is loaded. -/
theorem loadKey_key {path : String} {key : κ} {notes : List String}
    (h : KeyFile server client path key) :
    (loadKey canonical path notes : Program κ _).Meets (serveChains server client)
      (fun _ r => r.1 = some key) w := by
  refine .ask fun _ => ?_
  simp only [serveChains]
  obtain hopen | ⟨hencrypted, s, hs, hload⟩ := h.opens
  · rw [hopen]
    exact .done rfl
  · have hprompt : ∀ (notes : List String) (w : World),
        (promptPassphrase path (passphraseKey canonical path) notes : Program κ _).Meets
          (serveChains server client) (fun _ r => r.1 = some key) w := by
      refine fun notes w => .ask fun _ => ?_
      simp only [serveChains, hs]
      refine .ask fun _ => ?_
      simp only [serveChains, hload]
      split
      · exact .ask fun _ => .done rfl
      · exact .done rfl
    rw [hencrypted]
    apply (migratePassphrase_key h).bind
    rintro w ⟨_ | k, notes⟩ hk
    · refine .ask fun _ => ?_
      simp only [serveChains, serve]
      split
      · exact hprompt _ _
      · refine .ask fun _ => ?_
        simp only [serveChains]
        split
        · rename_i k hload
          exact .done (congrArg some (h.only _ _ hload))
        · exact .ask fun _ => hprompt _ _
    · exact .done (hk.resolve_left (Option.some_ne_none k))

/-- What an attempt gives: what its answer tells, and no failure if the credential is right. -/
def Tried (server : Server κ) (client : Client κ) (canonical : String → String) (spec : HostSpec)
    (m : Factor) (passed : List Factor) (right : Prop) (w : World) (s : Step)
    (methods : Option (List MethodKind)) : Prop :=
  Tells server client canonical spec m passed w s methods ∧ (right → s ≠ .failed)

theorem loadKey_meets {path : String} {notes : List String}
    (h : At server client canonical spec passed methods w) (hp : path ∈ spec.identityFiles)
    (key : κ) :
    (loadKey canonical path notes : Program κ _).Meets (serveChains server client)
      (fun w r => At server client canonical spec passed methods w ∧
        (KeyFile server client path key → r.1 = some key)) w := by
  by_cases hk : KeyFile server client path key
  · exact ((h.loadKey hp).and (loadKey_key hk)).mono fun _ _ hr => ⟨hr.1, fun _ => hr.2⟩
  · exact (h.loadKey hp).mono fun _ _ hr => ⟨hr, fun hk' => absurd hk' hk⟩

omit [DecidableEq κ] in
theorem complete_tried {right : Bool} {good : Prop}
    (h : At server client canonical spec passed methods w)
    (hm : m ∈ nextFactors server.chains passed) (hr : good → right = true) :
    Tried server client canonical spec m passed good (server.complete m right w).2
      (step methods (server.complete m right w).1).1
      (step methods (server.complete m right w).1).2 :=
  ⟨complete_tells h right, fun hg => complete_right h hm (hr hg)⟩

theorem signFile_tried {path : String} {key : κ} {notes : List String}
    (h : At server client canonical spec passed methods w) (hp : path ∈ spec.identityFiles)
    (hm : .publicKey ∈ nextFactors server.chains passed) :
    (signFile canonical path key notes).Meets (serveChains server client)
      (Gives fun w r => Tried server client canonical spec .publicKey passed
        (KeyFile server client path key) w (step methods r.1).1 (step methods r.1).2) w := by
  apply (loadKey_meets h hp key).bind
  rintro w ⟨_ | k, notes⟩ ⟨hat, hk⟩
  · exact .ask fun _ => .done (complete_tried hat hm fun hg => by cases hk hg)
  · refine .ask fun _ => ?_
    simp only [serveChains]
    split
    · refine .ask fun _ => .done (complete_tried hat hm fun hg => ?_)
      simp [hg.accepted, Option.some.inj (hk hg)]
    · rename_i hsigns
      refine .ask fun _ => .done (complete_tried hat hm fun hg => ?_)
      rw [Option.some.inj (hk hg), hg.signs] at hsigns
      cases hsigns

theorem offerFile_tried {user path : String} {key : κ} {notes : List String}
    (h : At server client canonical spec passed methods w) (hp : path ∈ spec.identityFiles)
    (hm : .publicKey ∈ nextFactors server.chains passed) :
    (offerFile canonical user path key notes).Meets (serveChains server client)
      (Gives fun w r => Tried server client canonical spec .publicKey passed
        (KeyFile server client path key) w (step methods r.1).1 (step methods r.1).2) w := by
  refine .ask fun _ => ?_
  simp only [serveChains, h.reached, hm, and_true]
  split
  · exact signFile_tried h hp hm
  · rename_i hno
    exact .done ⟨⟨h.reached, rfl, h.password⟩, fun hg => absurd hg.accepted hno⟩

theorem tryFiles_tried {user : String} {paths : List String} {pr : Progress κ} (key : κ)
    (h : At server client canonical spec passed pr.methods w)
    (hp : ∀ path ∈ paths, path ∈ spec.identityFiles)
    (hm : .publicKey ∈ nextFactors server.chains passed) :
    (tryFiles canonical user paths pr).Meets (serveChains server client)
      (Gives fun w r => Tried server client canonical spec .publicKey passed
        (∃ path ∈ paths, KeyFile server client path key) w r.1 r.2.methods) w := by
  induction paths generalizing pr w with
  | nil =>
    refine .done ⟨h, ?_⟩
    rintro ⟨_, hmem, _⟩
    exact absurd hmem List.not_mem_nil
  | cons path paths ih =>
    obtain ⟨hpath, hpaths⟩ := List.forall_mem_cons.mp hp
    -- The other files are tried where this one is no usable key or its attempt failed.
    have hskip : ∀ {w : World} {pr : Progress κ},
        At server client canonical spec passed pr.methods w →
        ¬KeyFile server client path key →
        (tryFiles canonical user paths pr).Meets (serveChains server client)
          (Gives fun w (r : Step × Progress κ) => Tried server client canonical spec .publicKey
            passed (∃ p ∈ path :: paths, KeyFile server client p key) w r.1 r.2.methods) w := by
      intro w pr hat hno
      simp only [List.exists_mem_cons_iff, hno, false_or]
      exact ih hat hpaths
    have hgo : ∀ {w : World} (pr : Progress κ) {r : AuthResult},
        Tried server client canonical spec .publicKey passed (KeyFile server client path key) w
          (step pr.methods r).1 (step pr.methods r).2 →
        (afterAttempt (tryFiles canonical user paths) pr r).Meets (serveChains server client)
          (Gives fun w (r : Step × Progress κ) => Tried server client canonical spec .publicKey
            passed (∃ p ∈ path :: paths, KeyFile server client p key) w r.1 r.2.methods) w := by
      rintro w pr r ⟨htells, hg⟩
      rw [afterAttempt]
      rcases hs : step pr.methods r with ⟨_ | _ | _, methods⟩
      · rw [hs] at htells
        exact .done ⟨htells, fun _ => by simp⟩
      · rw [hs] at htells
        exact .done ⟨htells, fun _ => by simp⟩
      · rw [hs] at htells hg
        exact hskip htells fun hk => hg hk rfl
    refine .ask fun _ => ?_
    simp only [serveChains]
    split
    · rename_i hfile
      refine hskip h fun hk => ?_
      rw [hk.isFile] at hfile
      cases hfile
    · refine .ask fun _ => .ask fun _ => ?_
      simp only [serveChains]
      split
      · rename_i k hpublic
        apply andThen_meets (offerFile_tried h hpath hm)
        rintro w ⟨r, declined, notes⟩ ⟨htells, hg⟩
        refine hgo _ ⟨htells, fun hk => hg ?_⟩
        rw [hk.publicKey _ hpublic]
        exact hk
      · apply (loadKey_meets h hpath key).bind
        rintro w ⟨_ | k, notes⟩ ⟨hat, hk⟩
        · exact hskip hat fun hg => by cases hk hg
        · refine .ask fun _ => hgo _ (complete_tried hat hm fun hg => ?_)
          rw [Option.some.inj (hk hg)]
          exact hg.accepted

/-- What the attempts of a method come to: the client is in, or it wins just if it wins with the
rest of the order from where it stands. -/
def Part (server : Server κ) (client : Client κ) (canonical : String → String) (spec : HostSpec)
    (few : Prop) (m : Factor) (order passed : List Factor) (w : World) (r : Bool × Progress κ) :
    Prop :=
  if r.1 = true then Wins server.chains few passed (m :: order)
  else ∃ now, At server client canonical spec now r.2.methods w ∧
    (Wins server.chains few passed (m :: order) ↔ Wins server.chains few now order)

variable {few : Prop} {order : List Factor} {pr : Progress κ}

omit [DecidableEq κ] in
theorem part_skip (h : At server client canonical spec passed pr.methods w)
    (hm : m ∉ nextFactors server.chains passed) :
    Part server client canonical spec few m order passed w (false, pr) :=
  ⟨passed, h, wins_skip hm⟩

omit [DecidableEq κ] in
theorem part_done (h : passed ++ [m] ∈ server.chains) (hk : m ≠ .keyboardInteractive) :
    Part server client canonical spec few m order passed w (true, pr) :=
  (wins_take (mem_nextFactors.mpr ⟨[], h⟩) fun hm => absurd hm hk).mpr (.inl h)

omit [DecidableEq κ] in
theorem part_next (hm : m ∈ nextFactors server.chains passed) (hk : m ≠ .keyboardInteractive)
    (h : Tells server client canonical spec m passed w .partialSuccess pr.methods) :
    Part server client canonical spec few m order passed w (false, pr) :=
  ⟨passed ++ [m], h.2, (wins_take hm fun hm => absurd hm hk).trans (or_iff_right h.1)⟩

theorem keys_part {agents : List Agent} (h : At server client canonical spec passed pr.methods w)
    {path : String} {key : κ} (hpath : path ∈ spec.identityFiles)
    (hkey : KeyFile server client path key) :
    (keys canonical agents spec pr).Meets (serveChains server client)
      (Gives (Part server client canonical spec few .publicKey order passed)) w := by
  rw [keys]
  split
  · rename_i ho
    have hm := (h.offers_iff (m := .publicKey)).mp ho
    apply andThen_meets (tryFiles_tried key h (fun _ hp => hp) hm)
    rintro w ⟨_ | _ | _, pr⟩ ⟨htells, hg⟩
    · exact .done (part_done htells (by simp))
    · exact .done (part_next hm (by simp) htells)
    · exact absurd rfl (hg ⟨path, hpath, hkey⟩)
  · rename_i ho
    exact .done (part_skip h fun hm => ho (h.offers_iff.mpr hm))

omit [DecidableEq κ] in
theorem At.typed {w' : World} (h : At server client canonical spec passed methods w)
    (htyped : ∃ s, client.password = some s ∧ server.acceptsPassword s.value = true)
    (hw : w'.passed = w.passed) : At server client canonical spec passed methods w' :=
  ⟨hw.trans h.reached, h.offered, .inr htyped⟩

theorem promptPassword_part (h : At server client canonical spec passed pr.methods w)
    (htyped : ∃ s, client.password = some s ∧ server.acceptsPassword s.value = true) :
    (promptPassword spec pr).Meets (serveChains server client)
      (Gives (Part server client canonical spec few .password order passed)) w := by
  obtain ⟨s, hs, haccepts⟩ := htyped
  rw [promptPassword]
  split
  · rename_i ho
    have hm := (h.offers_iff (m := .password)).mp ho
    refine .ask fun _ => ?_
    simp only [serveChains, hs]
    refine .ask fun _ => ?_
    have htried : Tried server client canonical spec .password passed True _ _ _ :=
      complete_tried h hm fun _ => haccepts
    simp only [serveChains, Prod.map_fst, Prod.map_snd, id, connected]
    generalize server.complete .password (server.acceptsPassword s.value) w = answer at htried ⊢
    -- Whether the password is written does not matter: the user types it again.
    have hpart : ∀ (w' : World) (notes : List String), w'.passed = answer.2.passed →
        Part server client canonical spec few .password order passed w'
          (decide ((step pr.methods answer.1).1 = .done),
            { pr with methods := (step pr.methods answer.1).2, notes }) := by
      rintro w' notes hw
      obtain ⟨htells, hright⟩ := htried
      rcases hstep : step pr.methods answer.1 with ⟨_ | _ | _, methods⟩
      · rw [hstep] at htells
        exact part_done htells (by simp)
      · rw [hstep] at htells
        exact part_next hm (by simp) ⟨htells.1, htells.2.typed ⟨s, hs, haccepts⟩ hw⟩
      · rw [hstep] at hright
        exact absurd rfl (hright trivial)
    split
    · exact .ask fun _ => .done (hpart _ _ rfl)
    · exact .done (hpart _ _ rfl)
  · rename_i ho
    exact .done (part_skip h fun hm => ho (h.offers_iff.mpr hm))

theorem passwords_part (h : At server client canonical spec passed pr.methods w) :
    (passwords spec pr).Meets (serveChains server client)
      (Gives (Part server client canonical spec few .password order passed)) w := by
  rw [passwords]
  split
  · rename_i ho
    have hm := (h.offers_iff (m := .password)).mp ho
    refine .ask fun _ => ?_
    simp only [serveChains, serve]
    cases hstored : w.keychain (passwordKey spec.hostAlias) with
    | none =>
      apply promptPassword_part h
      obtain ⟨pw, hpw, -⟩ | htyped := h.password
      · rw [hstored] at hpw
        cases hpw
      · exact htyped
    | some pw =>
      refine .ask fun _ => ?_
      have htried : Tried server client canonical spec .password passed
          (server.acceptsPassword pw = true) _ _ _ := complete_tried h hm id
      simp only [serveChains, Prod.map_fst, Prod.map_snd, id, connected]
      obtain ⟨htells, hright⟩ := htried
      generalize server.complete .password (server.acceptsPassword pw) w = answer
        at htells hright ⊢
      rcases hstep : step pr.methods answer.1 with ⟨_ | _ | _, methods⟩
      · rw [hstep] at htells
        exact .done (part_done htells (by simp))
      · rw [hstep] at htells
        exact .done (part_next hm (by simp) htells)
      · rw [hstep] at htells hright
        have htyped : ∃ s, client.password = some s ∧ server.acceptsPassword s.value = true := by
          obtain ⟨pw', hpw', haccepts, -⟩ | htyped := h.password
          · obtain rfl : pw = pw' := Option.some.inj (hstored.symm.trans hpw')
            exact absurd rfl (hright haccepts)
          · exact htyped
        refine .ask fun _ => promptPassword_part ?_ htyped
        exact At.typed htells htyped rfl
  · rename_i ho
    exact .done (part_skip h fun hm => ho (h.offers_iff.mpr hm))

theorem kbdRounds_meets {rounds : List Round} {n : ℕ} (hw : w.passed = passed)
    (hm : .keyboardInteractive ∈ nextFactors server.chains passed)
    (hkbd : ∀ round ∈ rounds, Answers client round) :
    (kbdRounds n (server.askRounds rounds w).1 : Program κ _).Meets (serveChains server client)
      (Gives fun _ b => b = true ↔
        passed ++ [.keyboardInteractive] ∈ server.chains ∧ rounds.length ≤ n)
      (server.askRounds rounds w).2 := by
  induction rounds generalizing n w with
  | nil =>
    simp only [Server.askRounds, Server.complete, hw, hm, and_self, if_true]
    split
    · rename_i hc
      cases n <;> exact .done (by simp [Gives, hc])
    · rename_i hc
      cases n <;> exact .done (by simp [Gives, hc])
  | cons round rounds ih =>
    obtain ⟨hround, hrounds⟩ := List.forall_mem_cons.mp hkbd
    obtain _ | n := n
    · exact .done (by simp [Gives])
    · have hrespond : ∀ given, round.right given = true →
          (Asking.ask (.kbdRespond given) (connected (kbdRounds n)) : Program κ _).Meets
            (serveChains server client)
            (Gives fun _ b => b = true ↔ passed ++ [.keyboardInteractive] ∈ server.chains ∧
              (round :: rounds).length ≤ n + 1)
            (server.askRounds (round :: rounds) w).2 := by
        intro given hgiven
        refine .ask fun _ => ?_
        simp only [serveChains, Server.askRounds, Server.kbdRespond, hgiven, if_true, Prod.map_fst,
          Prod.map_snd, id, connected, List.length_cons, Nat.add_le_add_iff_right]
        exact ih hw hrounds
      simp only [Server.askRounds, kbdRounds]
      split
      · rename_i hnone
        exact hrespond [] (round.right_nil hnone)
      · rename_i hsome
        obtain ⟨given, hgiven, hright⟩ := hround hsome
        refine .ask fun _ => ?_
        simp only [serveChains, hgiven]
        exact hrespond given hright

theorem lastMethod_meets (h : At server client canonical spec passed pr.methods w)
    (hkbd : ∀ round ∈ server.rounds, Answers client round) :
    (lastMethod spec pr).Meets (serveChains server client)
      (fun _ r => r = .ok () ↔ Wins server.chains (server.rounds.length ≤ maxKbdRounds) passed
        [.keyboardInteractive]) w := by
  simp only [lastMethod]
  split
  · rename_i ho
    have hm := (h.offers_iff (m := .keyboardInteractive)).mp ho
    have hkeyboard : (keyboardInteractive spec : Program κ _).Meets (serveChains server client)
        (Gives fun _ b => b = true ↔ passed ++ [.keyboardInteractive] ∈ server.chains ∧
          server.rounds.length ≤ maxKbdRounds) w := by
      refine .ask fun _ => ?_
      simp only [serveChains, Server.kbdStart, h.reached, hm, if_true, Prod.map_fst, Prod.map_snd,
        id, connected]
      exact kbdRounds_meets h.reached hm hkbd
    apply andThen_meets hkeyboard
    rintro w (_ | _) hb
    · exact .done (by simpa [wins_last] using hb)
    · exact .done (by simpa [wins_last] using hb)
  · rename_i ho
    have hm : .keyboardInteractive ∉ nextFactors server.chains passed :=
      fun hm => ho (h.offers_iff.mpr hm)
    exact .done (by simp [wins_skip hm, not_wins_nil])

theorem authenticate_meets {agents : List Agent} {notes : List String} {keychain : Keychain}
    (h : Ready server client canonical spec keychain) :
    (authenticate canonical agents spec notes).Meets (serveChains server client)
      (fun _ r => r = .ok () ↔ Wins server.chains (server.rounds.length ≤ maxKbdRounds) []
        methodOrder) ⟨[], [], keychain⟩ := by
  obtain ⟨path, hpath, key, hkey⟩ := h.key
  let pr : Progress κ := ⟨some (server.methods []), [], notes⟩
  have hat : At server client canonical spec [] pr.methods ⟨[], [], keychain⟩ :=
    ⟨rfl, rfl, h.password⟩
  refine .ask fun _ => ?_
  apply andThen_meets (keys_part hat hpath hkey)
  rintro w ⟨_ | _, pr⟩ hpart
  · obtain ⟨now, hat, hwins⟩ := hpart
    rw [methodOrder, hwins]
    apply andThen_meets (passwords_part hat)
    rintro w ⟨_ | _, pr⟩ hpart
    · obtain ⟨now, hat, hwins⟩ := hpart
      rw [hwins]
      exact lastMethod_meets hat h.kbd
    · exact .done (iff_of_true rfl hpart)
  · exact .done (iff_of_true rfl hpart)

/-- A client that has all that a server may ask for gets in exactly if some chain follows its order
and skips a method only where it is not offered; a chain with questions must not have too many
rounds of them. -/
theorem authenticate_chains {agents : List Agent} {notes : List String} {keychain : Keychain}
    (h : Ready server client canonical spec keychain) (answers : ℕ → (op : Op κ) → Ans op) :
    (authenticate canonical agents spec notes).eval (serveChains server client) ⟨[], [], keychain⟩
        answers = .ok () ↔
      ∃ c ∈ server.chains, c ≠ [] ∧ Follows server.chains [] methodOrder c ∧
        (.keyboardInteractive ∈ c → server.rounds.length ≤ maxKbdRounds) := by
  obtain ⟨-, hr⟩ := (authenticate_meets h).eval answers
  rw [hr]
  constructor
  · rintro ⟨c, hne, hf, hc, hk⟩
    exact ⟨c, hc, hne, hf, hk⟩
  · rintro ⟨c, hc, hne, hf, hk⟩
    exact ⟨c, hne, hf, hc, hk⟩

end Client

section Example

/-- A server with one round of questions. -/
def oneRound (chains : List (List Factor)) : Server Unit where
  chains := chains
  acceptsKey _ := true
  acceptsPassword pw := pw = "pw"
  rounds := [⟨"", "", [⟨"code", false⟩], fun given => given = ["1"], nofun⟩]

/-- A client with a key file, whose user types the password and the code. -/
def oneKey : Client Unit where
  isFile _ := true
  publicKeyOf _ := some ()
  loadSecretKey _ _ := .key ()
  signs _ := true
  passphrase _ := none
  password := some ⟨"pw", false⟩
  kbd _ _ _ := some ["1"]

def oneHost : HostSpec := ⟨"h", "h", "u", ["id"]⟩

theorem ready_oneKey (chains : List (List Factor)) :
    Ready (oneRound chains) oneKey id oneHost fun _ => none := by
  constructor
  · exact ⟨"id", List.mem_singleton.mpr rfl, (), rfl, rfl, fun _ _ => rfl, fun _ _ _ => rfl,
      .inl rfl, rfl⟩
  · exact .inr ⟨_, rfl, by simp [oneRound]⟩
  · rintro round hround -
    obtain rfl := List.mem_singleton.mp hround
    exact ⟨_, rfl, by decide⟩

/-- A key, and then a code. -/
theorem authenticate_chains_code :
    (authenticate id [.env] oneHost []).eval
      (serveChains (oneRound [[.publicKey, .keyboardInteractive]]) oneKey)
      ⟨[], [], fun _ => none⟩ (fun _ => retyped .success) = .ok () := by
  apply (authenticate_chains (ready_oneKey _) _).mpr
  refine ⟨_, List.mem_singleton.mpr rfl, List.cons_ne_nil _ _, ?_, fun _ => by decide⟩
  exact .take (.skip (by decide) (.take .complete))

/-- The server wants a password and then a key. -/
theorem not_authenticate_chains : ¬∀ (server : Server Unit) (client : Client Unit)
    (canonical : String → String) (agents : List Agent) (spec : HostSpec) (notes : List String)
    (keychain : Keychain) (answers : ℕ → (op : Op Unit) → Ans op),
    (∀ c ∈ server.chains, c.Nodup) → Ready server client canonical spec keychain →
    (authenticate canonical agents spec notes).eval (serveChains server client) ⟨[], [], keychain⟩
      answers = .ok () := by
  intro h
  have hok := h (oneRound [[.password, .publicKey]]) oneKey id [] oneHost [] (fun _ => none)
    (fun _ => retyped .success) (by decide) (ready_oneKey _)
  exact absurd (congrArg Except.isOk hok) (by decide)

end Example

end MultiAi.Auth
