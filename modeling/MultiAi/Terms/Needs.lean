import MultiAi.Terms.Provenance

/-! # Problems that need the user

A connection that needs the user is not to be tried again until the user says so. The task
remembers why a connection was not opened, but not why a terminal could not attach again.
-/

namespace MultiAi.Terms

open Std

/-- A call to the connector or to the connection. -/
def isCall : TermEffect → Bool
  | .openTerminals | .attach .. => true
  | _ => false

/-- Without terminals the task goes idle. -/
def Idled (log : List TermEffect) : Prop := ∃ hostId, .emit hostId none ∈ log

/-- Of what was done with the attempts of a script, the call `e` failed and needs the user. -/
structure Needs (script : List Attempt) (new pre : List TermEffect) (e : TermEffect)
    (post : List TermEffect) (p : Problem) : Prop where
  cut : new = pre ++ e :: post
  call : isCall e
  outcome : (script[pre.countP isCall]?).bind (·.outcome) = some (.error (.needsUser p))

/-- In the turn, which does not end the task, the call `e` failed and needs the user. -/
def TurnNeeds (s : Terms) (turn : Turn) (pre : List TermEffect) (e : TermEffect)
    (post : List TermEffect) (p : Problem) : Prop :=
  (s.step turn).ended = false ∧ ∃ new, (s.step turn).log = s.log ++ new ∧
    Needs turn.script new pre e post p

/-- The turn takes a retry or an open. -/
def Turn.Asks (turn : Turn) : Prop :=
  turn.wake = .command (some .retry) ∨ ∃ spec reply, turn.wake = .command (some (.open spec reply))

/-- After a call failed that opened the connection or attached a terminal again, and terminals
remain, the problem is reported, and nothing is called before a retry or an open, unless one
waits already. -/
def AwaitsUser (cfg : HostConfig) (before : List Turn) (turn : Turn) : Prop :=
  ∀ pre e post p, (run cfg before).TurnNeeds turn pre e post p →
    (∀ id spec zellij, e = .attach id spec zellij →
      id < (run cfg before).nextId ∨ (run cfg before).link = .idle) → ¬Idled post →
    post.countP isCall = 0 ∧ (run cfg (before ++ [turn])).lastTerm = some (.needsUser p) ∧
    ((run cfg (before ++ [turn])).pending = [] → ∀ later, (∀ turn ∈ later, ¬turn.Asks) →
      ∃ more, (run cfg (before ++ turn :: later)).log = (run cfg (before ++ [turn])).log ++ more ∧
        more.countP isCall = 0 ∧ ((run cfg (before ++ turn :: later)).ended = true ∨
          (run cfg (before ++ turn :: later)).slots = ∅ ∨
          (run cfg (before ++ turn :: later)).lastTerm = some (.needsUser p)))

/-- A terminal cannot attach again because that needs the user, and terminals remain. -/
def ReattachNeeds (s : Terms) (turn : Turn) : Prop :=
  ∃ pre id spec zellij post p, s.TurnNeeds turn pre (.attach id spec zellij) post p ∧
    id < s.nextId ∧ ¬Idled post

/-- A terminal is opened. -/
def openedTurn : Turn :=
  ⟨0, .command (some (.open ⟨"work", false, ⟨80, 24⟩⟩ 7)),
    [⟨[], 5, none, some (.ok ())⟩, ⟨[], 5, none, some (.ok ())⟩], id, List.Perm.refl⟩

/-- A terminal's channel ends, and attaching it again needs the user. -/
def needingTurn : Turn :=
  ⟨40000, .output 1 0 none true, [⟨[], 5, none, some (.error (.needsUser (.config "no shell")))⟩],
    id, List.Perm.refl⟩

variable {s t u : Terms} {N : ℕ} {A : Prop} {script : List Attempt}
  {new new' pre post : List TermEffect} {e : TermEffect} {p : Problem}

/-- Steps of a turn that add `new` to the log; every call uses the next attempt of the script. -/
structure Spends (s t : Terms) (new : List TermEffect) : Prop where
  log : t.log = s.log ++ new
  script : t.script = s.script.drop (new.countP isCall)

theorem Spends.refl (s : Terms) : Spends s s [] := ⟨(List.append_nil _).symm, rfl⟩

theorem Spends.trans (h : Spends s t new) (h' : Spends t u new') : Spends s u (new ++ new') := by
  constructor
  · rw [h'.log, h.log, List.append_assoc]
  · rw [h'.script, h.script, List.drop_drop, List.countP_append]

theorem Spends.one (hlog : t.log = s.log ++ [e]) (hscript : t.script = s.script)
    (he : isCall e = false) : Spends s t [e] := by
  refine ⟨hlog, ?_⟩
  rw [List.countP_cons_of_neg (by simp [he])]
  exact hscript

theorem Spends.note (s : Terms) (he : isCall e = false) : Spends s (s.note e) [e] :=
  .one rfl rfl he

theorem Spends.send (s : Terms) (slot : Slot) (msg : PtyIn) :
    ∃ sent, Spends s (s.send slot msg) sent ∧ sent.countP isCall = 0 := by
  unfold Terms.send
  cases slot.pty with
  | none => exact ⟨[], .refl s, rfl⟩
  | some p => exact ⟨_, .note s rfl, rfl⟩

theorem Spends.doLocal (s : Terms) (cmd : TermCmd) :
    ∃ sent, Spends s (s.doLocal cmd) (.handled cmd :: sent) ∧ sent.countP isCall = 0 := by
  have hnote : Spends s (s.note (.handled cmd)) [.handled cmd] := .note s rfl
  cases cmd with
  | input id data =>
    simp only [Terms.doLocal, slot_note]
    cases s.slot id with
    | none => exact ⟨[], hnote, rfl⟩
    | some slot =>
      obtain ⟨sent, hsent, hnone⟩ :=
        Spends.send (s.note (.handled (.input id data))) slot (.data data)
      exact ⟨sent, hnote.trans hsent, hnone⟩
  | resize id size =>
    simp only [Terms.doLocal, slot_note]
    cases s.slot id with
    | none => exact ⟨[], hnote, rfl⟩
    | some slot =>
      obtain ⟨sent, hsent, hnone⟩ := Spends.send ((s.note (.handled (.resize id size))).setSlot id
        { slot with spec := { slot.spec with size := size } }) slot (.resize size)
      exact ⟨sent, hnote.trans ⟨hsent.log, hsent.script⟩, hnone⟩
  | close id =>
    simp only [Terms.doLocal, slot_note]
    cases s.slot id with
    | none => exact ⟨[], hnote, rfl⟩
    | some slot =>
      obtain ⟨sent, hsent, hnone⟩ :=
        Spends.send ((s.note (.handled (.close id))).dropSlot id) slot .close
      exact ⟨sent, hnote.trans ⟨hsent.log, hsent.script⟩, hnone⟩
  | «open» spec reply => exact ⟨[], ⟨hnote.log, hnote.script⟩, rfl⟩
  | retry => exact ⟨[], hnote, rfl⟩
  | stop => exact ⟨[], hnote, rfl⟩

/-- The commands of an attempt make no call. -/
theorem Spends.busy (cmds : List TermCmd) (s : Terms) :
    ∃ sent, Spends s (s.busy cmds).1 sent ∧ sent.countP isCall = 0 := by
  induction cmds generalizing s with
  | nil => exact ⟨[], .refl s, rfl⟩
  | cons cmd cmds ih =>
    cases cmd with
    | stop => exact ⟨_, .note s rfl, rfl⟩
    | _ =>
      obtain ⟨sent, hsent, hnone⟩ := Spends.doLocal s _
      obtain ⟨more, hmore, hnone'⟩ := ih (s.doLocal _)
      refine ⟨_, hsent.trans hmore, ?_⟩
      rw [List.countP_append, List.countP_cons_of_neg (by simp [isCall]), hnone, hnone']

/-- An attempt that is not told to stop ends as the script says. -/
theorem await_spends {r : Except OpenError Unit} (h : s.await = (t, some r)) :
    ∃ sent, t.log = s.log ++ sent ∧ sent.countP isCall = 0 ∧ t.script = s.script.drop 1 ∧
      (s.script[0]?).bind (·.outcome) = some r := by
  unfold await at h
  cases hs : s.script with
  | nil =>
    rw [hs] at h
    cases h
  | cons a script =>
    obtain ⟨sent, hsent, hnone⟩ := Spends.busy a.cmds { s with script := script }
    simp only [hs] at h
    rcases hb : Terms.busy { s with script := script } a.cmds with ⟨v, _ | _⟩ <;>
      rw [hb] at h hsent
    · cases h
    · obtain ⟨rfl, hr⟩ := Prod.mk.inj h
      refine ⟨sent, hsent.log, hnone, ?_, hr⟩
      exact hsent.script.trans (by rw [hnone]; rfl)

/-- What a call that failed and needs the user has come to in the state `t`. -/
inductive Outcome (N : ℕ) (A : Prop) (t : Terms) (e : TermEffect) (post : List TermEffect)
    (p : Problem) : Prop
  | idled : Idled post → Outcome N A t e post p
  | new (id : ℕ) (spec : AttachSpec) (zellij : Option String) : e = .attach id spec zellij →
      N ≤ id → A → Outcome N A t e post p
  | asks : e = .openTerminals → post.countP isCall = 0 → t.link = .down none (.needsUser p) →
      t.lastTerm = some (.needsUser p) → Outcome N A t e post p
  | forgets (id : ℕ) (spec : AttachSpec) (zellij : Option String) (at' : ℕ) (error : OpenError)
      (retryIn : ℕ) (reason : String) : e = .attach id spec zellij → id < N →
      post.countP isCall = 0 → t.link = .down (some at') error →
      t.lastTerm = some (.retrying retryIn reason) → Outcome N A t e post p

/-- Steps of a turn, with what the calls in them that need the user have come to. -/
def Resolves (N : ℕ) (A : Prop) (s t : Terms) : Prop :=
  ∃ new, Spends s t new ∧ ∀ pre e post p, Needs s.script new pre e post p → Outcome N A t e post p

theorem Spends.resolves (h : Spends s t new) (hnone : new.countP isCall = 0) :
    Resolves N A s t := by
  refine ⟨new, h, fun pre e post p hneeds => ?_⟩
  have hmem : e ∈ new := by
    rw [hneeds.cut]
    simp
  exact absurd hneeds.call (List.countP_eq_zero.mp hnone e hmem)

/-- One call, after which no other is made. -/
theorem resolves_call {r : Except OpenError Unit} (post : List TermEffect) (he : isCall e)
    (hlog : t.log = s.log ++ e :: post) (hnone : post.countP isCall = 0)
    (hscript : t.script = s.script.drop 1) (hr : (s.script[0]?).bind (·.outcome) = some r)
    (hout : ∀ p, r = .error (.needsUser p) → Outcome N A t e post p) : Resolves N A s t := by
  refine ⟨e :: post, ⟨hlog, ?_⟩, fun pre e' post' p hneeds => ?_⟩
  · rw [hscript, List.countP_cons_of_pos he, hnone]
  · cases pre with
    | nil =>
      obtain ⟨rfl, rfl⟩ := List.cons.inj hneeds.cut
      exact hout p (Option.some.inj (hr.symm.trans hneeds.outcome))
    | cons x pre =>
      have hmem : e' ∈ post := by
        rw [(List.cons.inj hneeds.cut).2]
        simp
      exact absurd hneeds.call (List.countP_eq_zero.mp hnone e' hmem)

theorem not_down (h : t.link = .up) (at' : Option ℕ) (error : OpenError) :
    t.link ≠ .down at' error := by
  rw [h]
  exact nofun

theorem Outcome.append (h : Outcome N A t e post p)
    (hlink : ∀ at' error, t.link ≠ .down at' error) : Outcome N A u e (post ++ new) p := by
  cases h with
  | idled hi =>
    obtain ⟨hostId, hm⟩ := hi
    exact .idled ⟨hostId, List.mem_append_left _ hm⟩
  | new id spec zellij he hid ha => exact .new id spec zellij he hid ha
  | asks he hpost hl => exact absurd hl (hlink _ _)
  | forgets id spec zellij at' error retryIn reason he hid hpost hl => exact absurd hl (hlink _ _)

theorem Needs.later (h : Needs script (new ++ new') (new ++ pre) e post p) :
    Needs (script.drop (new.countP isCall)) new' pre e post p := by
  refine ⟨?_, h.call, ?_⟩
  · have hcut : new ++ new' = new ++ (pre ++ e :: post) := by rw [h.cut, List.append_assoc]
    exact List.append_cancel_left hcut
  · rw [List.getElem?_drop, ← List.countP_append]
    exact h.outcome

theorem Resolves.trans (h : Resolves N A s t) (hlink : ∀ at' error, t.link ≠ .down at' error)
    (h' : Resolves N A t u) : Resolves N A s u := by
  obtain ⟨new, hspends, hold⟩ := h
  obtain ⟨new', hspends', hnew⟩ := h'
  refine ⟨new ++ new', hspends.trans hspends', fun pre e post p hneeds => ?_⟩
  rcases Log.append_eq_cut.mp hneeds.cut with ⟨mid, hcut, rfl⟩ | ⟨mid, rfl, hcut⟩
  · exact (hold pre e mid p ⟨hcut, hneeds.call, hneeds.outcome⟩).append hlink
  · exact hnew mid e post p (hspends.script ▸ hneeds.later)

/-- No call is made at first. -/
theorem Spends.first (h : Spends s t new) (hnone : new.countP isCall = 0)
    (h' : Resolves N A t u) : Resolves N A s u := by
  obtain ⟨new', hspends, hnew⟩ := h'
  refine ⟨new ++ new', h.trans hspends, fun pre e post p hneeds => ?_⟩
  rcases Log.append_eq_cut.mp hneeds.cut with ⟨mid, rfl, -⟩ | ⟨mid, rfl, hcut⟩
  · exact absurd hneeds.call (List.countP_eq_zero.mp hnone e (by simp))
  · exact hnew mid e post p (h.script ▸ hneeds.later)

/-- Steps that make no call, and change neither the connection nor what was reported. -/
theorem Resolves.silent (h : Resolves N A s t) (h' : Spends t u new')
    (hnone : new'.countP isCall = 0) (hlink : u.link = t.link) (hlast : u.lastTerm = t.lastTerm) :
    Resolves N A s u := by
  obtain ⟨new, hspends, hold⟩ := h
  refine ⟨new ++ new', hspends.trans h', fun pre e post p hneeds => ?_⟩
  rcases Log.append_eq_cut.mp hneeds.cut with ⟨mid, hcut, rfl⟩ | ⟨mid, rfl, hcut⟩
  · have hmid : mid.countP isCall = 0 → (mid ++ new').countP isCall = 0 := fun hm => by
      rw [List.countP_append, hm, hnone]
    cases hold pre e mid p ⟨hcut, hneeds.call, hneeds.outcome⟩ with
    | idled hi =>
      obtain ⟨hostId, hm⟩ := hi
      exact .idled ⟨hostId, List.mem_append_left _ hm⟩
    | new id spec zellij he hid ha => exact .new id spec zellij he hid ha
    | asks he hpost hl ht => exact .asks he (hmid hpost) (hlink.trans hl) (hlast.trans ht)
    | forgets id spec zellij at' error retryIn reason he hid hpost hl ht =>
      exact .forgets id spec zellij at' error retryIn reason he hid (hmid hpost) (hlink.trans hl)
        (hlast.trans ht)
  · have hmem : e ∈ new' := by
      rw [hcut]
      simp
    exact absurd hneeds.call (List.countP_eq_zero.mp hnone e hmem)

theorem idleIfEmpty_spends (s : Terms) : ∃ sent, Spends s s.idleIfEmpty sent ∧
    sent.countP isCall = 0 ∧
    (s.slots = ∅ → s.link ≠ .idle → s.link ≠ .busy → Idled sent) := by
  unfold idleIfEmpty
  split_ifs with h
  · exact ⟨[.emit s.cfg.id none], ⟨rfl, rfl⟩, rfl, fun _ _ _ => ⟨s.cfg.id, List.mem_cons_self⟩⟩
  · refine ⟨[], .refl s, rfl, fun hs hi hb => absurd ?_ h⟩
    simp [hs, hi, hb]

/-- The connection is tried again on its own, unless no terminal is left. -/
theorem down_spends (s : Terms) (reason : String) : ∃ sent, Spends s (s.down reason) sent ∧
    sent.countP isCall = 0 ∧ (Idled sent ∨ ∃ at' error retryIn text,
      (s.down reason).link = .down (some at') error ∧
        (s.down reason).lastTerm = some (.retrying retryIn text)) := by
  unfold down
  rcases s.backoff.nextDelay with ⟨retryIn, backoff⟩
  simp only
  split_ifs with h
  · obtain ⟨sent, hsent, hnone, hidle⟩ := idleIfEmpty_spends { s with
      backoff := backoff
      link := .down (some (s.now + retryIn)) (.retry reason) }
    refine ⟨sent, ⟨hsent.log, hsent.script⟩, hnone, Or.inl (hidle ?_ nofun nofun)⟩
    simpa using h
  · exact ⟨[_], ⟨rfl, rfl⟩, rfl, Or.inr ⟨_, _, _, _, rfl, lastTerm_emit _ _⟩⟩

theorem lost_spends (s : Terms) (reason : String) : ∃ sent, Spends s (s.lost reason) sent ∧
    sent.countP isCall = 0 ∧ (Idled sent ∨ ∃ at' error retryIn text,
      (s.lost reason).link = .down (some at') error ∧
        (s.lost reason).lastTerm = some (.retrying retryIn text)) := by
  unfold lost
  generalize hu : ({ s with
    slots := s.slots.map fun _ => Slot.detach
    log := s.log ++ s.slots.keys.map (TermEffect.owner · (.detached reason))
    backoff := if s.upSince.any (stableAfter ≤ s.now - ·) then s.backoff.reset else s.backoff
    upSince := none } : Terms) = u
  have hquiet : (s.slots.keys.map (TermEffect.owner · (.detached reason))).countP isCall = 0 := by
    rw [List.countP_map]
    exact List.countP_eq_zero.mpr fun _ _ => Bool.false_ne_true
  have hdetach : Spends s u (s.slots.keys.map (TermEffect.owner · (.detached reason))) := by
    subst hu
    refine ⟨rfl, ?_⟩
    rw [hquiet]
    rfl
  obtain ⟨sent, hsent, hnone, hend⟩ := down_spends u reason
  subst hu
  refine ⟨_, hdetach.trans hsent, by rw [List.countP_append, hquiet, hnone], ?_⟩
  refine hend.imp_left ?_
  rintro ⟨hostId, hm⟩
  exact ⟨hostId, List.mem_append_right _ hm⟩

theorem attach_spends {id g : ℕ} {spec : AttachSpec} {r : Except OpenError ℕ} (hl : s.link = .up)
    (h : s.attach id g spec = (t, some r)) :
    ∃ zellij post o, t.log = s.log ++ .attach id spec zellij :: post ∧ post.countP isCall = 0 ∧
      t.script = s.script.drop 1 ∧ (s.script[0]?).bind (·.outcome) = some o ∧ t.link = .up ∧
      ∀ e, o = .error e ↔ r = .error e := by
  rw [attach, hl] at h
  simp only at h
  rcases ha : ({ s with link := .busy }.note (.attach id spec s.zellijPath)).await with
    ⟨v, _ | e | _⟩ <;> rw [ha] at h <;> cases h
  · obtain ⟨sent, hlog, hnone, hscript, hr⟩ := await_spends ha
    refine ⟨s.zellijPath, sent, _, ?_, hnone, hscript, hr, rfl, by simp⟩
    rw [hlog, note, List.append_assoc]
    rfl
  · obtain ⟨sent, hlog, hnone, hscript, hr⟩ := await_spends ha
    refine ⟨s.zellijPath, sent ++ [.created v.nextPty id g spec], _, ?_, ?_, hscript, hr, rfl,
      by simp⟩
    · simp [hlog, note]
    · rw [List.countP_append, hnone]
      rfl

theorem reattached_spends (s : Terms) (id g p : ℕ) : ∃ sent, Spends s (s.reattached id g p) sent ∧
    sent.countP isCall = 0 ∧ (s.reattached id g p).link = s.link := by
  rcases reattached_cases s id g p with ⟨slot, -, heq⟩ | ⟨-, heq⟩ <;> rw [heq]
  · exact ⟨[_], ⟨rfl, rfl⟩, rfl, rfl⟩
  · exact ⟨[_], ⟨rfl, rfl⟩, rfl, rfl⟩

/-- A terminal that cannot attach again takes the connection down. -/
theorem resolves_lost {id g : ℕ} {spec : AttachSpec} {e : OpenError} (hl : s.link = .up)
    (h : s.attach id g spec = (t, some (.error e))) (hid : id < N) :
    Resolves N A s (t.lost (reasonOf e)) := by
  obtain ⟨zellij, post, o, hlog, hpost, hscript, hr, -, -⟩ := attach_spends hl h
  obtain ⟨sent, hsent, hnone, hend⟩ := lost_spends t (reasonOf e)
  refine resolves_call (e := .attach id spec zellij) (post ++ sent) rfl ?_ ?_ ?_ hr ?_
  · rw [hsent.log, hlog, List.append_assoc, List.cons_append]
  · rw [List.countP_append, hpost, hnone]
  · rw [hsent.script, hnone, hscript]
    rfl
  · intro p _
    rcases hend with ⟨hostId, hm⟩ | ⟨at', error, retryIn, reason, hlink, hlast⟩
    · exact .idled ⟨hostId, List.mem_append_right _ hm⟩
    · refine .forgets id spec zellij at' error retryIn reason rfl hid ?_ hlink hlast
      rw [List.countP_append, hpost, hnone]

/-- An attach that works. -/
theorem resolves_attach {id g p : ℕ} {spec : AttachSpec} (hl : s.link = .up)
    (h : s.attach id g spec = (t, some (.ok p))) : Resolves N A s t := by
  obtain ⟨zellij, post, o, hlog, hpost, hscript, hr, -, herr⟩ := attach_spends hl h
  refine resolves_call (e := .attach id spec zellij) post rfl hlog hpost hscript hr fun p ho => ?_
  cases (herr _).mp ho

theorem resolves_reattached {id g p : ℕ} {spec : AttachSpec} (hl : s.link = .up)
    (h : s.attach id g spec = (t, some (.ok p))) :
    Resolves N A s (t.reattached id g p) ∧ (t.reattached id g p).link = .up := by
  obtain ⟨-, -, -, -, -, -, -, hup, -⟩ := attach_spends hl h
  obtain ⟨sent, hsent, hnone, hlink⟩ := reattached_spends t id g p
  have hstill : Resolves N A t (t.reattached id g p) := hsent.resolves hnone
  exact ⟨(resolves_attach hl h).trans (not_down hup) hstill, hlink.trans hup⟩

theorem resolves_attachAll {ids : List ℕ} (hl : s.link = .up) (hids : ∀ id ∈ ids, id < N)
    (h : s.attachAll ids = (t, true)) : Resolves N A s t := by
  induction ids generalizing s with
  | nil =>
    cases h
    obtain ⟨sent, hsent, hnone, -⟩ := idleIfEmpty_spends s
    exact hsent.resolves hnone
  | cons id ids ih =>
    have hrest : ∀ id' ∈ ids, id' < N := fun id' hm => hids id' (List.mem_cons_of_mem _ hm)
    rw [attachAll] at h
    cases hs : s.slot id with
    | none =>
      rw [hs] at h
      exact ih hl hrest h
    | some slot =>
      simp only [hs] at h
      rcases ha : s.attach id (slot.generation + 1) slot.spec with ⟨v, _ | e | p⟩ <;>
        simp only [ha] at h
      · cases h
      · cases h
        exact resolves_lost hl ha (hids id List.mem_cons_self)
      · obtain ⟨hfirst, hup⟩ := resolves_reattached (N := N) (A := A) hl ha
        exact hfirst.trans (not_down hup) (ih hup hrest h)

theorem connect_spends {r : Except OpenError Unit} (h : s.connect = (t, some r)) :
    ∃ post, t.log = s.log ++ .openTerminals :: post ∧ post.countP isCall = 0 ∧
      t.script = s.script.drop 1 ∧ (s.script[0]?).bind (·.outcome) = some r := by
  rw [connect] at h
  rcases ha : (s.note .openTerminals).await with ⟨v, _ | e | _⟩ <;> rw [ha] at h <;> cases h
  · obtain ⟨sent, hlog, hnone, hscript, hr⟩ := await_spends ha
    refine ⟨sent, ?_, hnone, hscript, hr⟩
    rw [hlog, note, List.append_assoc]
    rfl
  · obtain ⟨sent, hlog, hnone, hscript, hr⟩ := await_spends ha
    refine ⟨sent ++ [.emit v.cfg.id (some .up)], ?_, ?_, hscript, hr⟩
    · simp [hlog, emit, note]
    · rw [List.countP_append, hnone]
      rfl

/-- The connection is opened. -/
theorem resolves_connect (h : s.connect = (t, some (.ok ()))) : Resolves N A s t := by
  obtain ⟨post, hlog, hpost, hscript, hr⟩ := connect_spends h
  exact resolves_call post rfl hlog hpost hscript hr nofun

/-- The connection is not opened. -/
theorem resolves_refused {error : OpenError} (h : s.connect = (t, some (.error error)))
    (hspends : Spends t u new) (hnone : new.countP isCall = 0)
    (hout : ∀ p, error = .needsUser p → Idled new ∨
      u.link = .down none (.needsUser p) ∧ u.lastTerm = some (.needsUser p)) :
    Resolves N A s u := by
  obtain ⟨post, hlog, hpost, hscript, hr⟩ := connect_spends h
  have hquiet : (post ++ new).countP isCall = 0 := by rw [List.countP_append, hpost, hnone]
  refine resolves_call (e := .openTerminals) (post ++ new) rfl ?_ hquiet ?_ hr fun p he => ?_
  · rw [hspends.log, hlog, List.append_assoc, List.cons_append]
  · rw [hspends.script, hnone, hscript]
    rfl
  · rcases hout p (Except.error.inj he) with ⟨hostId, hm⟩ | ⟨hlink, hlast⟩
    · exact .idled ⟨hostId, List.mem_append_right _ hm⟩
    · exact .asks rfl hquiet hlink hlast

theorem resolves_reconnect {order : List ℕ → List ℕ} (ho : ∀ ids, (order ids).Perm ids)
    (hids : ∀ id slot, s.slot id = some slot → id < N) (h : s.reconnect order = (t, true)) :
    Resolves N A s t := by
  rw [reconnect] at h
  rcases hc : s.connect with ⟨v, _ | (reason | p) | _⟩ <;> simp only [hc] at h
  · cases h
  · cases h
    obtain ⟨sent, hsent, hnone, -⟩ := down_spends v reason
    exact resolves_refused hc hsent hnone (by simp)
  · cases h
    split_ifs with hempty
    · obtain ⟨sent, hsent, hnone, hidle⟩ :=
        idleIfEmpty_spends { v with link := .down none (.needsUser p) }
      refine resolves_refused hc (u := _) ⟨hsent.log, hsent.script⟩ hnone fun p' _ => ?_
      exact Or.inl (hidle (by simpa using hempty) (by simp) (by simp))
    · refine resolves_refused hc (.one rfl rfl rfl) rfl ?_
      rintro p' ⟨⟩
      exact Or.inr ⟨rfl, lastTerm_emit _ _⟩
  · rcases connect_cases hc with ⟨-, hl, -, hs⟩ | ⟨⟨e, he⟩, -⟩
    · have hall : ∀ id ∈ order v.slots.keys, id < N := by
        intro id hm
        rw [(ho _).mem_iff, mem_keys] at hm
        obtain ⟨slot', hs'⟩ := Option.isSome_iff_exists.mp hm
        obtain ⟨slot, hslot, -⟩ := hs id slot' hs'
        exact hids id slot hslot
      exact (resolves_connect hc).trans (not_down hl) (resolves_attachAll hl hall h)
    · cases he

theorem resolves_connectIdle {r : Except TermError Unit} (h : s.connectIdle = (t, some r)) :
    Resolves N A s t := by
  rw [connectIdle] at h
  rcases hc : s.connect with ⟨v, _ | e | _⟩ <;> rw [hc] at h <;> cases h
  · refine resolves_refused hc (.one rfl rfl rfl) rfl fun p _ => ?_
    exact Or.inl ⟨v.cfg.id, List.mem_cons_self⟩
  · exact resolves_connect hc

theorem resolves_openLink {order : List ℕ → List ℕ} {r : Except TermError Unit}
    (ho : ∀ ids, (order ids).Perm ids) (hids : ∀ id slot, s.slot id = some slot → id < N)
    (h : s.openLink order = (t, some r)) : Resolves N A s t := by
  rw [openLink] at h
  cases hl : s.link with
  | idle =>
    rw [hl] at h
    exact resolves_connectIdle h
  | down at' error =>
    simp only [hl] at h
    rcases hr : s.reconnect order with ⟨v, _ | _⟩ <;> simp only [hr] at h
    · cases h
    · have hfirst : Resolves N A s v := resolves_reconnect ho hids hr
      cases hv : v.link with
      | idle =>
        rw [hv] at h
        exact hfirst.trans (by simp [hv]) (resolves_connectIdle h)
      | _ =>
        rw [hv] at h
        cases h
        exact hfirst
  | _ =>
    rw [hl] at h
    cases h
    exact (Spends.refl s).resolves rfl

theorem Move.nextId_le {F : Prop} {w : Option Wake} {a b : Doing × Terms} (h : Move F w a b) :
    a.2.nextId ≤ b.2.nextId := by
  cases h with
  | stops => exact Nat.le_of_eq (handles_doLocal _ .stop).nextId.symm
  | handles cmd => exact Nat.le_of_eq (handles_doLocal _ cmd).nextId.symm
  | attachesNew => exact Nat.le_succ _
  | attachedAgain =>
    simp only [reattached]
    split <;> exact Nat.le_refl _
  | _ => exact Nat.le_refl _

theorem nextId_openLink {order : List ℕ → List ℕ} {r : Except TermError Unit}
    (ho : ∀ ids, (order ids).Perm ids) (hs : s.Shaped) (h : s.openLink order = (t, some r)) :
    s.nextId ≤ t.nextId := by
  have hchain := leads_openLink (F := True) (w := none) (v := none) ho hs fun _ => trivial
  rw [h] at hchain
  exact chain_rule (I := fun _ t => s.nextId ≤ t.nextId)
    (fun _ _ hm hle => Nat.le_trans hle hm.nextId_le) hchain (Nat.le_refl _)

/-- The first open goes idle where its attach fails. -/
theorem resolves_attachNew {id : ℕ} {spec : AttachSpec} {error : OpenError} (hl : s.link = .up)
    (h : s.attach id 0 spec = (t, some (.error error))) (hid : N ≤ id) (hA : s.slots ≠ ∅ → A) :
    Resolves N A s t.idleIfEmpty := by
  obtain ⟨zellij, post, o, hlog, hpost, hscript, hr, hup, -⟩ := attach_spends hl h
  obtain ⟨sent, hsent, hnone, hidle⟩ := idleIfEmpty_spends t
  refine resolves_call (e := .attach id spec zellij) (post ++ sent) rfl ?_ ?_ ?_ hr ?_
  · rw [hsent.log, hlog, List.append_assoc, List.cons_append]
  · rw [List.countP_append, hpost, hnone]
  · rw [hsent.script, hnone, hscript]
    rfl
  · intro p _
    by_cases hs : s.slots = ∅
    · obtain ⟨hostId, hm⟩ := hidle ((Kept.attach hl h).slots_eq_empty hs) (by simp [hup])
        (by simp [hup])
      exact .idled ⟨hostId, List.mem_append_right _ hm⟩
    · exact .new id spec zellij rfl hid (hA hs)

theorem slots_connectIdle {r : Except TermError Unit} (hs : s.slots = ∅)
    (h : s.connectIdle = (t, some r)) : t.slots = ∅ := by
  rw [connectIdle] at h
  rcases hc : s.connect with ⟨v, _ | e | _⟩ <;> rw [hc] at h <;> cases h
  · rcases connect_cases hc with ⟨he, -⟩ | ⟨-, hk⟩
    · cases he
    · exact hk.slots_eq_empty hs
  · rcases connect_cases hc with ⟨-, -, -, hslots⟩ | ⟨⟨e, he⟩, -⟩
    · refine (slots_eq_empty_iff _).mpr fun id => ?_
      by_contra hsome
      obtain ⟨slot', hs'⟩ := Option.ne_none_iff_exists'.mp hsome
      obtain ⟨slot, hslot, -⟩ := hslots id slot' hs'
      rw [(slots_eq_empty_iff _).mp hs id] at hslot
      cases hslot
    · cases he

theorem resolves_openTerminal {spec : AttachSpec} {order : List ℕ → List ℕ}
    {r : Except TermError ℕ} (ho : ∀ ids, (order ids).Perm ids) (hs : s.Shaped)
    (hids : ∀ id slot, s.slot id = some slot → id < N) (hN : N ≤ s.nextId)
    (hA : s.link ≠ .idle → A) (h : s.openTerminal spec order = (t, some r)) :
    Resolves N A s t := by
  rw [openTerminal] at h
  rcases hl : s.openLink order with ⟨v, _ | e | _⟩ <;> simp only [hl] at h
  · cases h
  · cases h
    exact resolves_openLink ho hids hl
  · have hfirst : Resolves N A s v := resolves_openLink ho hids hl
    have hup : v.link = .up := by
      rcases openLink_cases ho hs hl with ⟨-, hv⟩ | ⟨⟨e, he⟩, -⟩
      · exact hv.link
      · cases he
    have hN' : N ≤ v.nextId := Nat.le_trans hN (nextId_openLink ho hs hl)
    have hA' : v.slots ≠ ∅ → A := by
      refine fun hv => hA fun hidle => hv ?_
      rw [openLink, hidle] at hl
      obtain ⟨sh, hsh⟩ := hs
      cases sh with
      | idle => exact slots_connectIdle hsh.2.1 hl
      | up => exact absurd (hidle.symm.trans hsh.1) (by simp)
      | down =>
        obtain ⟨at', error, hdown⟩ := hsh.1
        exact absurd (hidle.symm.trans hdown) (by simp)
    set u := { v with nextId := v.nextId + 1 }.note (.opening v.nextId spec) with hu
    have hopening : Spends v u [.opening v.nextId spec] := ⟨rfl, rfl⟩
    have hsecond : Resolves N A s u := hfirst.silent hopening rfl rfl
      (Kept.note rfl { v with nextId := v.nextId + 1 }).lastTerm
    have hup' : u.link = .up := hup
    rcases ha : u.attach v.nextId 0 spec with ⟨x, _ | e | p⟩ <;> simp only [ha] at h
    · cases h
    · cases h
      exact hsecond.trans (not_down hup') (resolves_attachNew hup' ha hN' hA')
    · cases h
      obtain ⟨-, -, -, -, -, -, -, hlink, -⟩ := attach_spends hup' ha
      refine hsecond.trans (not_down hup') ((resolves_attach hup' ha).trans (not_down hlink) ?_)
      exact Spends.resolves (.one rfl rfl rfl) rfl

theorem resolves_serveOpen {spec : AttachSpec} {reply : ℕ} {order : List ℕ → List ℕ}
    (ho : ∀ ids, (order ids).Perm ids) (hs : s.Shaped)
    (hids : ∀ id slot, s.slot id = some slot → id < N) (hN : N ≤ s.nextId)
    (hA : s.link ≠ .idle → A) (h : s.serveOpen spec reply order = (t, true)) :
    Resolves N A s t := by
  rw [serveOpen] at h
  rcases hr : s.openTerminal spec order with ⟨v, _ | r⟩ <;> rw [hr] at h <;> cases h
  exact (resolves_openTerminal ho hs hids hN hA hr).silent
    (.note v rfl) rfl rfl (Kept.note rfl v).lastTerm

theorem resolves_channelEnded {id : ℕ} (hl : s.link = .up)
    (hids : ∀ id slot, s.slot id = some slot → id < N) (h : s.channelEnded id = (t, true)) :
    Resolves N A s t := by
  rw [channelEnded] at h
  cases hs : s.slot id with
  | none =>
    rw [hs] at h
    cases h
    exact (Spends.refl s).resolves rfl
  | some slot =>
    have hq : (if s.now - slot.attachedAt < stableAfter then slot.quickEnds + 1 else 0) =
      s.endsNow slot := rfl
    simp only [hs, hq] at h
    set u := s.setSlot id { slot with pty := none, quickEnds := s.endsNow slot } with hu
    split_ifs at h
    · cases h
      have hexit : Spends s ((u.note (.owner id (.exited none))).dropSlot id)
          [.owner id (.exited none)] := ⟨rfl, rfl⟩
      obtain ⟨sent, hsent, hnone, -⟩ :=
        idleIfEmpty_spends ((u.note (.owner id (.exited none))).dropSlot id)
      exact (hexit.trans hsent).resolves (by rw [List.countP_append, hnone]; rfl)
    · refine Spends.first (t := u.note (.owner id (.detached "terminal channel closed")))
        (.one rfl rfl rfl) rfl ?_
      have hup : (u.note (.owner id (.detached "terminal channel closed"))).link = .up := hl
      rcases ha : (u.note (.owner id (.detached "terminal channel closed"))).attach id
        (slot.generation + 1) slot.spec with ⟨v, _ | e | p⟩ <;> simp only [ha] at h
      · cases h
      · cases h
        exact resolves_lost hup ha (hids id slot hs)
      · cases h
        obtain ⟨hagain, hlink⟩ := resolves_reattached (N := N) (A := A) hup ha
        obtain ⟨sent, hsent, hnone, -⟩ :=
          idleIfEmpty_spends (v.reattached id (slot.generation + 1) p)
        exact hagain.trans (not_down hlink) (hsent.resolves hnone)

theorem resolves_output {id generation : ℕ} {out : Option PtyOut} {alive : Bool}
    (hids : ∀ id slot, s.slot id = some slot → id < N)
    (h : s.output id generation out alive = (t, true)) : Resolves N A s t := by
  unfold output at h
  cases hs : s.slot id with
  | none =>
    rw [hs] at h
    cases h
    exact (Spends.refl s).resolves rfl
  | some slot =>
    simp only [hs] at h
    by_cases hgen : (decide (slot.generation ≠ generation) || slot.pty.isNone) = true
    · rw [if_pos hgen] at h
      cases h
      exact (Spends.refl s).resolves rfl
    · rw [if_neg hgen] at h
      rcases out with _ | d | status
      · simp only at h
        split_ifs at h with hup
        · rw [Bool.and_eq_true, decide_eq_true_eq] at hup
          exact resolves_channelEnded hup.1 hids h
        · cases h
          obtain ⟨sent, hsent, hnone, -⟩ := lost_spends s "connection lost"
          exact hsent.resolves hnone
      · cases h
        exact Spends.resolves (.note s rfl) rfl
      · cases h
        have hexit : Spends s ((s.note (.owner id (.exited status))).dropSlot id)
            [.owner id (.exited status)] := ⟨rfl, rfl⟩
        obtain ⟨sent, hsent, hnone, -⟩ :=
          idleIfEmpty_spends ((s.note (.owner id (.exited status))).dropSlot id)
        exact (hexit.trans hsent).resolves (by rw [List.countP_append, hnone]; rfl)

theorem resolves_command {cmd : Option TermCmd} {order : List ℕ → List ℕ}
    (ho : ∀ ids, (order ids).Perm ids) (hs : s.Shaped)
    (hids : ∀ id slot, s.slot id = some slot → id < N) (hN : N ≤ s.nextId)
    (hA : s.link ≠ .idle → A) (h : s.command cmd order = (t, true)) : Resolves N A s t := by
  have hlocal : ∀ cmd, (s.doLocal cmd).idleIfEmpty = t → Resolves N A s t := by
    rintro cmd rfl
    obtain ⟨sent, hsent, hnone⟩ := Spends.doLocal s cmd
    obtain ⟨more, hmore, hnone', -⟩ := idleIfEmpty_spends (s.doLocal cmd)
    refine (hsent.trans hmore).resolves ?_
    rw [List.countP_append, List.countP_cons_of_neg (by simp [isCall]), hnone, hnone']
  have hhandled : ∀ cmd, Resolves N A s (s.note (.handled cmd)) := fun cmd =>
    Spends.resolves (.note s rfl) rfl
  have hstart : ∀ cmd, Resolves N A (s.note (.handled cmd)) t → Resolves N A s t := fun cmd =>
    Spends.first (.note s rfl) rfl
  rcases cmd with _ | cmd
  · cases h
  · cases cmd with
    | stop => cases h
    | «open» spec reply =>
      exact hstart _ (resolves_serveOpen ho (hs.note rfl) hids hN hA h)
    | retry =>
      simp only [command, link_note] at h
      cases hl : s.link with
      | down at' error =>
        rw [hl] at h
        exact hstart _ (resolves_reconnect ho hids h)
      | _ =>
        rw [hl] at h
        cases h
        exact hhandled _
    | input id data => exact hlocal _ (Prod.mk.inj h).1
    | resize id size => exact hlocal _ (Prod.mk.inj h).1
    | close id => exact hlocal _ (Prod.mk.inj h).1

theorem resolves_body {turn : Turn} (hs : s.Shaped)
    (hids : ∀ id slot, s.slot id = some slot → id < N) (hN : N ≤ s.nextId)
    (hA : s.link ≠ .idle → A) (h : s.body turn = (t, true)) : Resolves N A s t := by
  unfold body at h
  cases hp : s.pending with
  | cons x pending =>
    rw [hp] at h
    have hs' : Shaped { s with pending := pending } := hs.same rfl rfl rfl
    obtain ⟨new, hspends, hneeds⟩ := resolves_serveOpen turn.order_perm hs' hids hN hA h
    exact ⟨new, ⟨hspends.log, hspends.script⟩, hneeds⟩
  | nil =>
    rw [hp] at h
    cases hw : turn.wake with
    | command cmd =>
      rw [hw] at h
      exact resolves_command turn.order_perm hs hids hN hA h
    | output id generation out alive =>
      rw [hw] at h
      exact resolves_output hids h
    | timer =>
      rw [hw] at h
      simp only at h
      split_ifs at h
      · exact resolves_reconnect turn.order_perm hids h
      · cases h
        exact (Spends.refl s).resolves rfl

/-- What the calls of a turn that need the user have come to at its end. -/
theorem turn_outcome {turn : Turn} (hs : s.Shaped)
    (hids : ∀ id slot, s.slot id = some slot → id < s.nextId)
    (h : s.TurnNeeds turn pre e post p) :
    Outcome s.nextId (s.link ≠ .idle) (s.step turn) e post p := by
  obtain ⟨hgoes, new, hnew, hneeds⟩ := h
  have he := ended_of_step hgoes
  unfold step at hgoes hnew ⊢
  rw [if_neg (by simp [he])] at hgoes hnew ⊢
  have hs' : Shaped { s with now := s.now + turn.elapsed, script := turn.script } :=
    hs.same rfl rfl rfl
  rcases hb : body { s with now := s.now + turn.elapsed, script := turn.script } turn with
    ⟨t, _ | _⟩ <;> rw [hb] at hgoes hnew
  · cases hgoes
  · obtain ⟨new', hspends, hout⟩ := resolves_body (N := s.nextId) (A := s.link ≠ .idle) hs' hids
      (Nat.le_refl _) (fun hl => hl) hb
    obtain rfl : new' = new := List.append_cancel_left (hspends.log.symm.trans hnew)
    exact hout pre e post p hneeds

/-- The connection needs the user, or there is none. -/
structure Resting (p : Problem) (s : Terms) : Prop where
  pending : s.pending = []
  link : s.link = .idle ∧ s.slots = ∅ ∨
    s.link = .down none (.needsUser p) ∧ s.AllDetached ∧ s.lastTerm = some (.needsUser p)

theorem Resting.doLocal (h : Resting p s) (cmd : TermCmd)
    (hcmd : ∀ spec reply, cmd ≠ .open spec reply) : Resting p (s.doLocal cmd).idleIfEmpty := by
  have hpending : (s.doLocal cmd).pending = [] := by
    rw [(handles_doLocal s cmd).pending, h.pending]
    cases cmd with
    | «open» spec reply => exact absurd rfl (hcmd spec reply)
    | _ => rfl
  have hk : Kept s (s.doLocal cmd) := .doLocal s cmd
  rcases h.link with ⟨hl, hs⟩ | ⟨hl, hd, ht⟩
  · rw [idleIfEmpty_idle (hk.link.trans hl)]
    exact ⟨hpending, Or.inl ⟨hk.link.trans hl, hk.slots_eq_empty hs⟩⟩
  · by_cases hs : (s.doLocal cmd).slots = ∅
    · unfold idleIfEmpty
      rw [if_pos (by simp [hs, hk.link, hl])]
      exact ⟨hpending, Or.inl ⟨rfl, hs⟩⟩
    · rw [idleIfEmpty_nonempty hs]
      exact ⟨hpending, Or.inr ⟨hk.link.trans hl, hk.allDetached hd, hk.lastTerm.trans ht⟩⟩

theorem Resting.same (h : Resting p s) (hpending : t.pending = s.pending) (hlink : t.link = s.link)
    (hslots : t.slots = s.slots) (hlast : t.lastTerm = s.lastTerm) : Resting p t := by
  refine ⟨hpending.trans h.pending, ?_⟩
  rcases h.link with ⟨hl, hs⟩ | ⟨hl, hd, ht⟩
  · exact Or.inl ⟨hlink.trans hl, hslots.trans hs⟩
  · refine Or.inr ⟨hlink.trans hl, fun id slot hs => hd id slot ?_, hlast.trans ht⟩
    rwa [Terms.slot, hslots] at hs

theorem Resting.output {id generation : ℕ} {out : Option PtyOut} {alive : Bool} (h : Resting p s) :
    s.output id generation out alive = (s, true) := by
  unfold Terms.output
  cases hs : s.slot id with
  | none => rfl
  | some slot =>
    rcases h.link with ⟨-, hempty⟩ | ⟨-, hd, -⟩
    · rw [(slots_eq_empty_iff s).mp hempty id] at hs
      cases hs
    · simp [hd id slot hs]

/-- Without a retry or an open a task that needs the user calls nothing. -/
theorem Resting.body {turn : Turn} (h : Resting p s) (hasks : ¬turn.Asks) :
    ∃ new, (s.body turn).1.log = s.log ++ new ∧ new.countP isCall = 0 ∧
      ((s.body turn).2 = true → Resting p (s.body turn).1) := by
  unfold Terms.body
  rw [h.pending]
  cases hw : turn.wake with
  | command cmd =>
    have hlocal : ∀ cmd, (∀ spec reply, cmd ≠ .open spec reply) → ∃ new,
        (s.doLocal cmd).idleIfEmpty.log = s.log ++ new ∧ new.countP isCall = 0 ∧
          (true = true → Resting p (s.doLocal cmd).idleIfEmpty) := by
      intro cmd hcmd
      obtain ⟨sent, hsent, hnone⟩ := Spends.doLocal s cmd
      obtain ⟨more, hmore, hnone', -⟩ := idleIfEmpty_spends (s.doLocal cmd)
      refine ⟨_, (hsent.trans hmore).log, ?_, fun _ => h.doLocal cmd hcmd⟩
      rw [List.countP_append, List.countP_cons_of_neg (by simp [isCall]), hnone, hnone']
    rcases cmd with _ | cmd
    · exact ⟨[], (List.append_nil _).symm, rfl, nofun⟩
    · cases cmd with
      | stop => exact ⟨[_], rfl, rfl, nofun⟩
      | «open» spec reply => exact absurd (Or.inr ⟨spec, reply, hw⟩) hasks
      | retry => exact absurd (Or.inl hw) hasks
      | input id data => exact hlocal _ (by simp)
      | resize id size => exact hlocal _ (by simp)
      | close id => exact hlocal _ (by simp)
  | output id generation out alive =>
    simp only [h.output]
    exact ⟨[], (List.append_nil _).symm, rfl, fun _ => h⟩
  | timer =>
    have hretry : s.retryAt = none := by
      rcases h.link with ⟨hl, -⟩ | ⟨hl, -⟩ <;> simp [retryAt, hl]
    simp only [hretry]
    exact ⟨[], (List.append_nil _).symm, rfl, fun _ => h⟩

theorem Resting.step {turn : Turn} (h : Resting p s) (hasks : ¬turn.Asks) :
    ∃ new, (s.step turn).log = s.log ++ new ∧ new.countP isCall = 0 ∧
      ((s.step turn).ended = true ∨ Resting p (s.step turn)) := by
  by_cases he : s.ended = true
  · rw [Terms.step, if_pos he]
    exact ⟨[], (List.append_nil _).symm, rfl, Or.inl he⟩
  · have h' : Resting p { s with now := s.now + turn.elapsed, script := turn.script } :=
      h.same rfl rfl rfl rfl
    obtain ⟨new, hnew, hnone, hrest⟩ := h'.body hasks
    unfold Terms.step
    rw [if_neg he]
    rcases hb : Terms.body { s with now := s.now + turn.elapsed, script := turn.script } turn with
      ⟨t, _ | _⟩ <;> rw [hb] at hnew hrest
    · obtain ⟨sent, hsent, hclose⟩ := closeAll_log t
      have hquiet : sent.countP isCall = 0 := by
        refine List.countP_eq_zero.mpr fun x hx => ?_
        obtain ⟨p, msg, rfl⟩ := hclose x hx
        exact Bool.false_ne_true
      refine ⟨new ++ sent, ?_, ?_, Or.inl rfl⟩
      · rw [hsent, hnew, List.append_assoc]
      · rw [List.countP_append, hnone, hquiet]
    · exact ⟨new, hnew, hnone, Or.inr (hrest rfl)⟩

/-- A run without a retry or an open. -/
theorem Resting.run {later : List Turn} (h : Resting p s) (hasks : ∀ turn ∈ later, ¬turn.Asks) :
    ∃ more, (later.foldl Terms.step s).log = s.log ++ more ∧ more.countP isCall = 0 ∧
      ((later.foldl Terms.step s).ended = true ∨ Resting p (later.foldl Terms.step s)) := by
  induction later using List.reverseRecOn with
  | nil => exact ⟨[], (List.append_nil _).symm, rfl, Or.inr h⟩
  | append_singleton later turn ih =>
    obtain ⟨more, hmore, hnone, hend⟩ := ih fun turn' hm => hasks turn' (List.mem_append_left _ hm)
    rw [List.foldl_concat]
    rcases hend with hend | hrest
    · rw [Terms.step, if_pos hend]
      exact ⟨more, hmore, hnone, Or.inl hend⟩
    · obtain ⟨new, hnew, hnone', hend⟩ := hrest.step (hasks turn (by simp))
      refine ⟨more ++ new, ?_, ?_, hend⟩
      · rw [hnew, hmore, List.append_assoc]
      · rw [List.countP_append, hnone, hnone']

/-- In every run: the task waits for the user exactly where no terminal's attempt to attach again
needs the user while terminals remain. -/
theorem awaits_user_iff (cfg : HostConfig) (before : List Turn) (turn : Turn) :
    AwaitsUser cfg before turn ↔ ¬(Terms.run cfg before).ReattachNeeds turn := by
  constructor
  · rintro h ⟨pre, id, spec, zellij, post, p, hneeds, hid, hremain⟩
    have hgoes : (Terms.run cfg before).ended = false := ended_of_step hneeds.1
    obtain ⟨-, hlast, -⟩ := h pre _ post p hneeds
      (fun id' spec' zellij' heq => by cases heq; exact Or.inl hid) hremain
    rw [run_concat] at hlast
    cases turn_outcome (shaped_run hgoes) (run_ids hgoes).slots hneeds with
    | idled hi => exact hremain hi
    | new id' spec' zellij' heq hid' ha =>
      cases heq
      exact absurd hid (Nat.not_lt_of_le hid')
    | asks heq => cases heq
    | forgets id' spec' zellij' at' error retryIn reason heq hid' hpost hl ht =>
      cases ht.symm.trans hlast
  · intro h pre e post p hneeds hkind hremain
    have hgoes : (Terms.run cfg before).ended = false := ended_of_step hneeds.1
    rw [run_concat]
    cases turn_outcome (shaped_run hgoes) (run_ids hgoes).slots hneeds with
    | idled hi => exact absurd hi hremain
    | new id spec zellij heq hid ha =>
      rcases hkind id spec zellij heq with hlt | hidle
      · exact absurd hlt (Nat.not_lt_of_le hid)
      · exact absurd hidle ha
    | forgets id spec zellij at' error retryIn reason heq hid hpost hl ht =>
      exact absurd ⟨pre, id, spec, zellij, post, p, heq ▸ hneeds, hid, hremain⟩ h
    | asks heq hpost hl ht =>
      refine ⟨hpost, ht, fun hpending later hasks => ?_⟩
      have hshaped : ((Terms.run cfg before).step turn).Shaped := by
        refine step_shaped (shaped_run hgoes) hneeds.1
      have hrest : Resting p ((Terms.run cfg before).step turn) :=
        ⟨hpending, Or.inr ⟨hl, hshaped.allDetached hl, ht⟩⟩
      obtain ⟨more, hmore, hnone, hend⟩ := hrest.run hasks
      have hrun : Terms.run cfg (before ++ turn :: later) =
          later.foldl Terms.step ((Terms.run cfg before).step turn) := by
        rw [Terms.run, List.foldl_append, List.foldl_cons]
        rfl
      rw [hrun]
      refine ⟨more, hmore, hnone, hend.imp_right fun hr => ?_⟩
      exact hr.link.imp And.right fun hdown => hdown.2.2

/-- A terminal is opened, and attaching it again needs the user. -/
theorem not_awaits_user : ¬∀ (cfg : HostConfig) (before : List Turn) (turn : Turn),
    AwaitsUser cfg before turn := by
  intro h
  have hneeds : (run ⟨"h", .localHost, none⟩ [openedTurn]).TurnNeeds needingTurn
      [.owner 1 (.detached "terminal channel closed")]
      (.attach 1 ⟨"work", false, ⟨80, 24⟩⟩ none)
      [.owner 1 (.detached (reasonOf (.needsUser (.config "no shell")))),
        .emit "h" (some (.retrying 1000 (reasonOf (.needsUser (.config "no shell")))))]
      (.config "no shell") :=
    ⟨by decide, _, rfl, rfl, rfl, rfl⟩
  obtain ⟨-, hlast, -⟩ := h _ _ _ _ _ _ _ hneeds (fun id spec zellij heq => by
    cases heq
    exact Or.inl (by decide)) (by simp [Idled])
  exact absurd hlast (by decide)

end MultiAi.Terms
