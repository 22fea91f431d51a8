import MultiAi.Probe.Instance
import MultiAi.Probe.Server
import MultiAi.Probe.SpoolKeep

/-! # What agents report

Hooks of agents and the `emit` command record in the spool what an agent does, and a server tells
the app of it.
-/

namespace MultiAi.Agents

open HookMap Spool

/-- The variables that zellij sets in a pane. -/
structure Env where
  sessionName : Option String
  paneId : Option String

/-- How a process ends: its exit status and what it wrote on stderr. Nothing is on stdout. -/
structure Ending where
  status : ℕ
  stderr : List String

/-- A command line: a hook with its standard input, an `emit`, or a hook that clap refuses. -/
inductive Command where
  | hook (agent : String) (stdin : Except String String)
  | emit (agent state : String) (msg : Option String)
  | badHook (error : String)

/-- JSON texts, and why one of them is none. -/
structure HookLib where
  parse : String → Option Json
  jsonError : String → String

/-- A record for the pane that a process runs in, if any. -/
def recordHere (env : Env) (nowMs : ℕ) (agent : String) (payload : Json) : Option SpoolRecord := do
  let session ← env.sessionName
  let paneId ← Instance.parseU32 (← env.paneId).toList
  pure ⟨nowMs, agent, session, paneId.toNat, payload⟩

def dropBom (text : String) : String := String.ofList (text.toList.dropWhile (· = '\uFEFF'))

/-- The payload that `emit` writes. -/
def emitPayload (state : String) (msg : Option String) : Json :=
  .obj [("state", .str state), ("message", Json.ofOption .str msg)]

section Commands

variable (lib : HookLib) (env : Env) (nowMs : ℕ)

/-- What a hook records, or how it ends without. -/
def cmdHook (agent : String) (stdin : Except String String) : Except Ending SpoolRecord :=
  match stdin with
  | .error e => .error ⟨0, ["mai-probe hook: read stdin: " ++ e]⟩
  | .ok text =>
    match lib.parse (dropBom text) with
    | none =>
      .error ⟨0, ["mai-probe hook: payload is not JSON: " ++ lib.jsonError (dropBom text)]⟩
    | some payload =>
      match recordHere env nowMs agent payload with
      | none => .error ⟨0, []⟩
      | some record => .ok record

/-- What an `emit` records, or how it ends without. -/
def cmdEmit (agent state : String) (msg : Option String) : Except Ending SpoolRecord :=
  match stateOfJson (.str state) with
  | none => .error ⟨2, ["mai-probe emit: unknown state '" ++ state ++ "'"]⟩
  | some _ =>
    match recordHere env nowMs agent (emitPayload state msg) with
    | none => .error ⟨1, ["mai-probe emit: not inside a zellij pane (ZELLIJ_PANE_ID unset)"]⟩
    | some record => .ok record

/-- What a command is to append, or how it ends without. -/
def Command.record : Command → Except Ending SpoolRecord
  | .hook agent stdin => cmdHook lib env nowMs agent stdin
  | .emit agent state msg => cmdEmit env nowMs agent state msg
  | .badHook e => .error ⟨0, ["mai-probe hook: " ++ e]⟩

/-- How a command ends once it has appended its record, or has failed to. -/
def Command.finish : Command → Except String Unit → Ending
  | _, .ok () => ⟨0, []⟩
  | .emit .., .error e => ⟨1, ["mai-probe emit: spool: " ++ e]⟩
  | _, .error e => ⟨0, ["mai-probe hook: spool: " ++ e]⟩

end Commands

/-- A command that was run, its stamp, the cursor of its record if it appended one, and how it
ended. -/
structure Call where
  command : Command
  env : Env
  nowMs : ℕ
  cursor : Option ℕ
  ending : Ending

section Told

variable (lib : HookLib)

/-- The agent a command is about and what it says about it. An `emit` for an agent that has hooks
of its own says nothing. -/
def Command.meaning : Command → Option (String × Mapped)
  | .hook agent stdin => do
    let payload ← lib.parse (dropBom (← stdin.toOption))
    pure (agent, ← mapHook agent payload)
  | .emit agent state msg =>
    if agent = "claude" ∨ agent = "codex" then none
    else (stateOfName state).map fun state => (agent, ⟨state, short msg⟩)
  | .badHook _ => none

/-- What the app is to be told about a call. -/
def Call.told (call : Call) : Option AgentEvent := do
  let cursor ← call.cursor
  let (agent, m) ← call.command.meaning lib
  let session ← call.env.sessionName
  let paneId ← Instance.parseU32 (← call.env.paneId).toList
  pure ⟨⟨session, paneId.toNat⟩, agent, .hook, m.state, m.message, call.nowMs, some cursor⟩

end Told

/-- Commands run beside the reads and the clean-ups of a spool, each at a time of the clock. -/
inductive Calls (lib : HookLib) (codec : Codec) : Spool.Kept → List Call → Prop
  | start : Calls lib codec .start []
  | refused {s : Spool.Kept} {calls : List Call} {command : Command} {env : Env} {nowMs : ℕ}
      {ending : Ending} : Calls lib codec s calls →
      command.record lib env nowMs = .error ending →
      Calls lib codec s (calls ++ [⟨command, env, nowMs, none, ending⟩])
  | failed {s : Spool.Kept} {calls : List Call} {command : Command} {env : Env} {nowMs : ℕ}
      {record : SpoolRecord} (error : String) : Calls lib codec s calls →
      command.record lib env nowMs = .ok record →
      Calls lib codec s (calls ++ [⟨command, env, nowMs, none, command.finish (.error error)⟩])
  | appended {s : Spool.Kept} {calls : List Call} {command : Command} {env : Env} {nowMs : ℕ}
      {record : SpoolRecord} (t : ℕ) : Calls lib codec s calls →
      command.record lib env nowMs = .ok record → s.Allowed codec (.append record t) →
      Calls lib codec (s.play codec (.append record t))
        (calls ++ [⟨command, env, nowMs, some (s.log.cursorFor codec record),
          command.finish (.ok ())⟩])
  | read {s : Spool.Kept} {calls : List Call} (cursor now : ℕ) : Calls lib codec s calls →
      s.Allowed codec (.read cursor now) → Calls lib codec (s.play codec (.read cursor now)) calls
  | cleanup {s : Spool.Kept} {calls : List Call} (now removed : ℕ) : Calls lib codec s calls →
      s.Allowed codec (.cleanup now removed) →
      Calls lib codec (s.play codec (.cleanup now removed)) calls

section Records

variable {lib : HookLib} {env : Env} {nowMs : ℕ} {agent state : String} {payload : Json}
  {msg : Option String} {command : Command} {record : SpoolRecord} {cursor : ℕ} {ending : Ending}

theorem strField_emitPayload : strField (emitPayload state msg) "state" = some state ∧
    strField (emitPayload state msg) "message" = msg ∧
    strField (emitPayload state msg) "hook_event_name" = none := by
  cases msg <;> simp [strField, emitPayload, Json.get, Json.ofOption, Json.asStr]

/-- What an `emit` writes means for an agent. -/
theorem mapHook_emitPayload : mapHook agent (emitPayload state msg) =
    if agent = "claude" ∨ agent = "codex" then none
    else (stateOfName state).map fun state => ⟨state, short msg⟩ := by
  obtain ⟨-, hmsg, hname⟩ := @strField_emitPayload state msg
  have hstate : (emitPayload state msg).get "state" = some (.str state) := by
    simp [emitPayload, Json.get]
  by_cases hclaude : agent = "claude"
  · subst hclaude
    simp [mapHook, mapClaude, hname]
  by_cases hcodex : agent = "codex"
  · subst hcodex
    simp [mapHook, mapCodex, hname]
  have hgeneric : mapHook agent (emitPayload state msg) = mapGeneric (emitPayload state msg) := by
    rw [mapHook]
    · exact hclaude
    · exact hcodex
  rw [hgeneric, if_neg (not_or.mpr ⟨hclaude, hcodex⟩)]
  simp only [mapGeneric, hstate, hmsg, stateOfJson, Option.bind_eq_bind, Option.bind_some]
  cases stateOfName state <;> rfl

theorem recordHere_fields (h : recordHere env nowMs agent payload = some record) :
    ∃ session text paneId, env.sessionName = some session ∧ env.paneId = some text ∧
      Instance.parseU32 text.toList = some paneId ∧
      record = ⟨nowMs, agent, session, paneId.toNat, payload⟩ := by
  simp only [recordHere, Option.bind_eq_bind, Option.bind_eq_some_iff] at h
  obtain ⟨session, hs, text, ht, paneId, hp, hr⟩ := h
  exact ⟨session, text, paneId, hs, ht, hp, (Option.some.inj hr).symm⟩

/-- What a command records is what it says. -/
theorem Command.record_meaning (h : command.record lib env nowMs = .ok record) :
    ∃ agent payload, recordHere env nowMs agent payload = some record ∧
      command.meaning lib = (mapHook agent payload).map fun m => (agent, m) := by
  cases command with
  | hook agent stdin =>
    cases stdin with
    | error e => cases h
    | ok text =>
      simp only [Command.record, cmdHook] at h
      cases hp : lib.parse (dropBom text) with
      | none => simp [hp] at h
      | some payload =>
        cases hr : recordHere env nowMs agent payload with
        | none => simp [hp, hr] at h
        | some record' =>
          simp only [hp, hr, Except.ok.injEq] at h
          refine ⟨agent, payload, h ▸ hr, ?_⟩
          simp only [Command.meaning, Except.toOption, Option.bind_eq_bind, Option.bind_some, hp]
          cases mapHook agent payload <;> rfl
  | emit agent state msg =>
    simp only [Command.record, cmdEmit] at h
    cases hs : stateOfJson (.str state) with
    | none => simp [hs] at h
    | some s =>
      cases hr : recordHere env nowMs agent (emitPayload state msg) with
      | none => simp [hs, hr] at h
      | some record' =>
        simp only [hs, hr, Except.ok.injEq] at h
        refine ⟨agent, _, h ▸ hr, ?_⟩
        rw [Command.meaning, mapHook_emitPayload]
        split_ifs
        · rfl
        · rw [Option.map_map]
          rfl
  | badHook e => cases h

/-- The event of a record is what the app is to be told about the call. -/
theorem told_record (h : command.record lib env nowMs = .ok record) :
    Call.told lib ⟨command, env, nowMs, some cursor, ending⟩ = record.event cursor := by
  obtain ⟨agent, payload, hr, hmeaning⟩ := Command.record_meaning h
  obtain ⟨session, text, paneId, hs, ht, hp, rfl⟩ := recordHere_fields hr
  simp only [Call.told, hmeaning, hs, ht, hp, SpoolRecord.event, Option.bind_eq_bind,
    Option.bind_some]
  cases mapHook agent payload <;> rfl

theorem record_tsMs (h : command.record lib env nowMs = .ok record) : record.tsMs = nowMs := by
  obtain ⟨agent, payload, hr, -⟩ := Command.record_meaning h
  obtain ⟨session, text, paneId, -, -, -, rfl⟩ := recordHere_fields hr
  rfl

end Records

section Runs

variable {lib : HookLib} {codec : Codec} {s : Spool.Kept} {calls : List Call}

/-- How a call ended, and the record behind its cursor. -/
structure Call.Sound (lib : HookLib) (s : Spool.Kept) (call : Call) : Prop where
  hook : (∀ agent state msg, call.command ≠ .emit agent state msg) → call.ending.status = 0
  emit : ∀ agent state msg, call.command = .emit agent state msg →
    (call.ending.status = 0 ↔ call.cursor ≠ none)
  record : ∀ cursor, call.cursor = some cursor → ∃ record : SpoolRecord,
    (cursor, record) ∈ s.log.appended ∧ record.tsMs = call.nowMs ∧
      call.told lib = record.event cursor

theorem Call.Sound.mono {s' : Spool.Kept} {call : Call} (h : call.Sound lib s)
    (hsub : s.log.appended ⊆ s'.log.appended) : call.Sound lib s' where
  hook := h.hook
  emit := h.emit
  record cursor hc := by
    obtain ⟨record, hm, rest⟩ := h.record cursor hc
    exact ⟨record, hsub hm, rest⟩

theorem cmdHook_error {env : Env} {nowMs : ℕ} {agent : String} {stdin : Except String String}
    {ending : Ending} (h : cmdHook lib env nowMs agent stdin = .error ending) :
    ending.status = 0 := by
  unfold cmdHook at h
  split at h
  · cases h
    rfl
  · split at h
    · cases h
      rfl
    · split at h
      · cases h
        rfl
      · cases h

theorem cmdEmit_error {env : Env} {nowMs : ℕ} {agent state : String} {msg : Option String}
    {ending : Ending} (h : cmdEmit env nowMs agent state msg = .error ending) :
    ending.status ≠ 0 := by
  unfold cmdEmit at h
  split at h
  · cases h
    exact Nat.succ_ne_zero 1
  · split at h
    · cases h
      exact Nat.succ_ne_zero 0
    · cases h

/-- A command that records nothing. -/
theorem refused_sound {command : Command} {env : Env} {nowMs : ℕ} {ending : Ending}
    (h : command.record lib env nowMs = .error ending) :
    Call.Sound lib s ⟨command, env, nowMs, none, ending⟩ where
  hook := by
    intro hne
    cases command with
    | hook agent stdin => exact cmdHook_error h
    | emit agent state msg => exact absurd rfl (hne agent state msg)
    | badHook e =>
      cases h
      rfl
  emit := by
    rintro agent state msg rfl
    simpa using cmdEmit_error h
  record _ hc := by cases hc

theorem finish_sound {command : Command} {env : Env} {nowMs : ℕ} {record : SpoolRecord}
    (h : command.record lib env nowMs = .ok record) {cursor : Option ℕ} {r : Except String Unit}
    (hr : r.isOk ↔ cursor ≠ none)
    (hc : ∀ at', cursor = some at' → (at', record) ∈ s.log.appended) :
    Call.Sound lib s ⟨command, env, nowMs, cursor, command.finish r⟩ where
  hook := by
    intro hne
    cases r with
    | ok u => rfl
    | error e =>
      cases command with
      | emit agent state msg => exact absurd rfl (hne agent state msg)
      | _ => rfl
  emit := by
    rintro agent state msg rfl
    rw [← hr]
    cases r <;> simp [Command.finish, Except.isOk, Except.toBool]
  record cursor' hcur := by
    cases hcur
    exact ⟨record, hc cursor' rfl, record_tsMs h, told_record h⟩

/-- The records behind the cursors of the calls are all that is in the spool. -/
structure Inv (lib : HookLib) (codec : Codec) (s : Spool.Kept) (calls : List Call) : Prop where
  reachable : Spool.Kept.Reachable codec s
  sound : ∀ call ∈ calls, call.Sound lib s
  appended : ∀ x ∈ s.log.appended, ∃ call ∈ calls, call.cursor = some x.1 ∧
    call.told lib = x.2.event x.1

/-- A call that changes nothing in the spool. -/
theorem Inv.call (h : Inv lib codec s calls) {call : Call} (hc : call.Sound lib s) :
    Inv lib codec s (calls ++ [call]) where
  reachable := h.reachable
  sound := by
    simp only [List.forall_mem_append, List.forall_mem_singleton]
    exact ⟨h.sound, hc⟩
  appended x hx := by
    obtain ⟨call', hm, rest⟩ := h.appended x hx
    exact ⟨call', List.mem_append_left _ hm, rest⟩

theorem Inv.append (h : Inv lib codec s calls) {command : Command} {env : Env} {nowMs t : ℕ}
    {record : SpoolRecord} (hcommand : command.record lib env nowMs = .ok record)
    (ha : s.Allowed codec (.append record t)) :
    Inv lib codec (s.play codec (.append record t)) (calls ++ [⟨command, env, nowMs,
      some (s.log.cursorFor codec record), command.finish (.ok ())⟩]) where
  reachable := h.reachable.play ha
  sound := by
    simp only [List.forall_mem_append, List.forall_mem_singleton]
    refine ⟨fun call hm => (h.sound call hm).mono (List.subset_append_left _ _), ?_⟩
    refine finish_sound hcommand (by simp [Except.isOk, Except.toBool]) fun cursor hc => ?_
    cases hc
    exact List.mem_append_right _ (List.mem_singleton_self _)
  appended x hx := by
    rcases List.mem_append.mp hx with hx | hx
    · obtain ⟨call, hm, rest⟩ := h.appended x hx
      exact ⟨call, List.mem_append_left _ hm, rest⟩
    · cases List.mem_singleton.mp hx
      exact ⟨_, List.mem_append_right _ (List.mem_singleton_self _), rfl, told_record hcommand⟩

theorem Calls.inv (h : Calls lib codec s calls) : Inv lib codec s calls := by
  induction h with
  | start => exact ⟨.start, by simp, by simp [Spool.Kept.start, History.start]⟩
  | refused _ hcommand ih => exact ih.call (refused_sound hcommand)
  | failed error _ hcommand ih =>
    refine ih.call (finish_sound hcommand (by simp [Except.isOk, Except.toBool]) fun _ hcur => ?_)
    cases hcur
  | appended t _ hcommand ha ih => exact ih.append hcommand ha
  | read cursor now _ ha ih =>
    exact ⟨ih.reachable.play ha, fun call hm => (ih.sound call hm).mono (List.Subset.refl _),
      ih.appended⟩
  | cleanup now removed _ ha ih =>
    exact ⟨ih.reachable.play ha, fun call hm => (ih.sound call hm).mono (List.Subset.refl _),
      ih.appended⟩

/-- What the app is told of comes from calls in the order of their cursors. -/
theorem recordEvents_sorted {records : List (ℕ × SpoolRecord)}
    (h : records.Pairwise (·.1 < ·.1)) : (recordEvents records).Pairwise fun ev ev' =>
      ∃ c c', ev.spoolOffset = some c ∧ ev'.spoolOffset = some c' ∧ c < c' := by
  rw [recordEvents, List.pairwise_filterMap]
  refine h.imp fun hlt ev hev ev' hev' => ?_
  exact ⟨_, _, (SpoolRecord.event_spoolOffset hev).2, (SpoolRecord.event_spoolOffset hev').2, hlt⟩

end Runs

section Sample

def sampleEnv : Env := ⟨some "work", some "3"⟩

/-- What an agent without hooks asks its user. -/
def sampleCommand : Command := .emit "cmagent" "needs_input" (some "Continue?")

def sampleRecord : SpoolRecord :=
  ⟨5, "cmagent", "work", 3, emitPayload "needs_input" (some "Continue?")⟩

def sampleText : List UInt8 :=
  ("\x7b\"ts_ms\":5,\"agent\":\"cmagent\",\"session\":\"work\",\"pane_id\":3,\"payload\":" ++
    "\x7b\"state\":\"needs_input\",\"message\":\"Continue?\"\x7d\x7d").toList.map
      fun c => UInt8.ofNat c.toNat

/-- A library that knows this record only. -/
def sampleCodec : Codec where
  toVec _ := sampleText
  fromSlice bytes := if bytes = sampleText then some sampleRecord else none

def sampleLib : HookLib := ⟨fun _ => none, fun _ => ""⟩

def sampleKept : Spool.Kept :=
  (Spool.Kept.start.play sampleCodec (.append sampleRecord 6)).play sampleCodec (.read 0 7)

def sampleCall : Call :=
  ⟨sampleCommand, sampleEnv, 5, some (History.start.cursorFor sampleCodec sampleRecord), ⟨0, []⟩⟩

def sampleEvent : AgentEvent where
  pane := ⟨"work", 3⟩
  agent := "cmagent"
  source := .hook
  state := .needsInput
  message := some "Continue?"
  tsMs := 5
  spoolOffset := sampleCall.cursor

theorem sampleCalls : Calls sampleLib sampleCodec sampleKept [sampleCall] := by
  have hrecord : sampleCommand.record sampleLib sampleEnv 5 = .ok sampleRecord := by rfl
  refine ((Calls.start.appended 6 hrecord ⟨?_, ?_, ?_, ?_, ?_⟩).read 0 7 ⟨?_, .inl rfl⟩)
  all_goals decide +kernel

theorem sampleKept_faithful : ∀ x ∈ sampleKept.log.appended, sampleCodec.Faithful x.2 := by
  intro x hx
  cases List.mem_singleton.mp hx
  exact ⟨by simp [sampleCodec, sampleRecord], by decide +kernel⟩

end Sample

end MultiAi.Agents
