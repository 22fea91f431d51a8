import MultiAi.Deploy.Steps
import MultiAi.Hooks.Atomic

/-! # What the app is told about hooks

The probe edits the config of one agent after another and prints a line about each. The app reads
the lines, among others that a shell may print, and goes by the exit status.
-/

namespace MultiAi.Hooks

open Asking Json
open Deploy (ExecOutput Externals DeployError)
open Detect (Text trimmed)

/-- What other libraries do with JSON, paths and errors. -/
structure ReportLib where
  codec : JsonCodec
  pretty : Json → String
  display : Path → String
  ioText : FileError → String
  jsonText : Path → String
  isAbsolute : String → Bool

/-- An agent whose config takes our hooks. -/
structure HookTarget where
  agent : String
  dir : List String
  file : String
  events : List (String × Bool)

def HookTarget.path (t : HookTarget) : Path := ⟨t.dir, t.file⟩

def hookTargets (home : List String) : List HookTarget := [
  ⟨"claude", home ++ [".claude"], "settings.json", claudeEvents⟩,
  ⟨"codex", home ++ [".codex"], "hooks.json", codexEvents⟩]

/-- The operations of a hook command. -/
inductive HookOp where
  | isDir (dir : List String)
  | nowMs
  | config (op : ConfigOp)
  | print (line : Json)

abbrev HookAns : HookOp → Type
  | .isDir _ | .print _ => Bool
  | .nowMs => ℕ
  | .config op => ConfigAns op

abbrev HookProgram (ρ : Type) := Asking HookOp HookAns ρ

/-- What came of an agent. -/
inductive Report where
  | skipped
  | edited (outcome : Outcome)
  | failed (error : String)

def Report.isFailed : Report → Bool
  | .failed _ => true
  | _ => false

def Outcome.asStr : Outcome → String
  | .installed => "installed"
  | .removed => "removed"
  | .unchanged => "unchanged"

section Program

variable (lib : ReportLib) (pid : ℕ) (exe : String) (install : Bool) (t : HookTarget)

def InstallError.text : InstallError → String
  | .io path error => lib.display path ++ ": " ++ lib.ioText error
  | .parse path => lib.display path ++ ": invalid JSON: " ++ lib.jsonText path
  | .shape path what => lib.display path ++ ": " ++ what

/-- Codex asks its user first. -/
def codexNote : String := "Codex runs these hooks only after you trust them: run /hooks in Codex"

def notes (outcome : Outcome) : Option String :=
  if install ∧ t.agent = "codex" ∧ outcome ≠ .unchanged then some codexNote else none

/-- The line about an agent. -/
def Report.line : Report → Json
  | .skipped => .obj [("agent", .str t.agent), ("outcome", .str "skipped"),
      ("reason", .str "agent config dir not found")]
  | .edited outcome => .obj ([("agent", .str t.agent), ("outcome", .str outcome.asStr),
      ("path", .str (lib.display t.path))] ++ present "note" .str (notes install t outcome))
  | .failed error =>
    .obj [("agent", .str t.agent), ("outcome", .str "error"), ("error", .str error)]

def HookTarget.edit : Edit :=
  if install then .install t.events (hookCommand exe t.agent) else .uninstall

def reportOf : Except InstallError Outcome → Report
  | .ok outcome => .edited outcome
  | .error e => .failed (e.text lib)

/-- Edit the config of an agent, if it has a config dir. -/
def hookTarget : HookProgram Report :=
  .ask (.isDir t.dir) fun
    | false => .done .skipped
    | true => .ask .nowMs fun nowMs =>
      (((t.edit exe install).file lib.codec.parse lib.pretty pid t.path nowMs).lift HookOp.config
        fun _ a => a).bind fun result => .done (reportOf lib result)

/-- The exit status of a program that could not print. -/
def panicked : ℕ := 101

def hookAll (ok : Bool) : List HookTarget → HookProgram ℕ
  | [] => .done (if ok then 0 else 1)
  | t :: ts => (hookTarget lib pid exe install t).bind fun report =>
    .ask (.print (report.line lib install t)) fun
      | true => hookAll (ok && !report.isFailed) ts
      | false => .done panicked

def failAll (error : String) : List HookTarget → HookProgram ℕ
  | [] => .done 1
  | t :: ts => .ask (.print ((Report.failed error).line lib install t)) fun
    | true => failAll error ts
    | false => .done panicked

/-- One JSON line per agent on stdout; the exit status is 1 if any agent failed. -/
def cmdHooks (exe : Option String) (home : List String) : HookProgram ℕ :=
  match exe with
  | none => .done 1
  | some exe =>
    match if install then checkProbeExe lib.isAbsolute exe else .ok () with
    | .error e => failAll lib install e (hookTargets home)
    | .ok () => hookAll lib pid exe install true (hookTargets home)

/-- How the host serves an operation. -/
structure HookFate where
  isDir : Bool
  nowMs : ℕ
  fate : Fate
  printed : Bool

/-- The host has its files, and keeps what is printed. -/
def serveHook (hops : ℕ) :
    (op : HookOp) → Disk × List Json → HookFate → HookAns op × (Disk × List Json)
  | .isDir _, s, v => (v.isDir, s)
  | .nowMs, s, v => (v.nowMs, s)
  | .config op, s, v => ((serve hops op s.1 v.fate).1, (serve hops op s.1 v.fate).2, s.2)
  | .print line, s, v => if v.printed then (true, s.1, s.2 ++ [line]) else (false, s)

end Program

section Reading

/-- The fields of a result in their order; those that are left out have no value. -/
def resultOfItems (items : List Json) : Option HookResult := do
  let optional (v : Option Json) : Option (Option String) :=
    (v.map (asOption asStr)).getD (some none)
  let agent ← items[0]?.bind asStr
  let outcome ← items[1]?.bind asStr
  let path ← optional items[2]?
  let note ← optional items[3]?
  let reason ← optional items[4]?
  let error ← optional items[5]?
  if items.length ≤ 6 then some ⟨agent, outcome, path, note, reason, error⟩ else none

/-- A result, from an object or from a list of the values of its fields. -/
def decodeResult : Json → Option HookResult
  | .obj fields => do
    let agent ← field fields "agent" asStr none
    let outcome ← field fields "outcome" asStr none
    let path ← field fields "path" (asOption asStr) (some none)
    let note ← field fields "note" (asOption asStr) (some none)
    let reason ← field fields "reason" (asOption asStr) (some none)
    let error ← field fields "error" (asOption asStr) (some none)
    return ⟨agent, outcome, path, note, reason, error⟩
  | .arr items => resultOfItems items
  | _ => none

/-- The result on a line. -/
def hookResult (codec : JsonCodec) (line : Text) : Option HookResult :=
  (codec.parse (String.ofList line)).bind decodeResult

variable (lib : ReportLib) (install : Bool) (t : HookTarget)

/-- What the app is to read about an agent. -/
def Report.result : Report → HookResult
  | .skipped => ⟨t.agent, "skipped", none, none, some "agent config dir not found", none⟩
  | .edited outcome => ⟨t.agent, outcome.asStr, some (lib.display t.path), notes install t outcome,
      none, none⟩
  | .failed error => ⟨t.agent, "error", none, none, none, some error⟩

theorem decode_line (report : Report) :
    decodeResult (report.line lib install t) = some (report.result lib install t) := by
  cases report with
  | skipped => simp [Report.line, Report.result, decodeResult, field_cons, asOption]
  | failed error => simp [Report.line, Report.result, decodeResult, field_cons, asOption]
  | edited outcome =>
    rw [Report.line, Report.result]
    cases notes install t outcome with
    | none => simp [decodeResult, field_cons, asOption]
    | some note => simp [decodeResult, field_cons, asOption]

/-- The lines about some agents are read as their results. -/
theorem filterMap_zipWith_line (ts : List HookTarget) (reports : List Report) :
    (List.zipWith (fun t (report : Report) => report.line lib install t) ts reports).filterMap
      decodeResult =
    List.zipWith (fun t (report : Report) => report.result lib install t) ts reports := by
  induction ts generalizing reports with
  | nil => rfl
  | cons t ts ih =>
    cases reports with
    | nil => rfl
    | cons report reports =>
      rw [List.zipWith_cons_cons, List.zipWith_cons_cons,
        List.filterMap_cons_some (decode_line lib install t report), ih]

/-- A value that is printed on one line and read back from it. -/
structure Spoken (codec : JsonCodec) (v : Json) : Prop where
  faithful : codec.Faithful v
  trim : HookMap.trim (codec.print v).toList = (codec.print v).toList

/-- What is printed. -/
def printed (codec : JsonCodec) (lines : List Json) : Text :=
  lines.flatMap fun line => Lines.terminate '\n' (codec.print line).toList

variable {codec : JsonCodec} {lines : List Json} {ls : List Text} {rest : Text}

theorem trimmed_append (h : ∀ line ∈ ls, '\n' ∉ line) (rest : Text) :
    trimmed (ls.flatMap (Lines.terminate '\n') ++ rest) =
      trimmed (ls.flatMap (Lines.terminate '\n')) ++ trimmed rest := by
  rw [trimmed, trimmed, trimmed, Lines.lines_flatMap_append '\n' '\r' h, Lines.lines_flatMap h,
    List.map_append]

theorem Spoken.hookResult {v : Json} (h : Spoken codec v) :
    hookResult codec (codec.print v).toList = decodeResult v := by
  rw [Hooks.hookResult, String.ofList_toList, h.faithful.parse_print, Option.bind_some]

theorem Spoken.newline_notMem {v : Json} (h : Spoken codec v) :
    '\n' ∉ (codec.print v).toList := fun hn => absurd (h.faithful.noControl _ hn) (by decide)

theorem printed_eq : printed codec lines =
    (lines.map fun line => (codec.print line).toList).flatMap (Lines.terminate '\n') := by
  rw [List.flatMap_map, printed]

theorem trimmed_printed (h : ∀ line ∈ lines, Spoken codec line) :
    trimmed (printed codec lines) = lines.map fun line => (codec.print line).toList := by
  rw [printed_eq, trimmed, Lines.lines_flatMap
    (List.forall_mem_map.mpr fun line hline => (h line hline).newline_notMem), List.map_map,
    List.map_map]
  refine List.map_congr_left fun line hline => ?_
  have hcr : Lines.dropCr '\r' (codec.print line).toList = (codec.print line).toList := by
    rw [Lines.dropCr_eq_self]
    intro hlast
    exact absurd ((h line hline).faithful.noControl _ (List.mem_of_getLast? hlast)) (by decide)
  rw [Function.comp_apply, Function.comp_apply, hcr, (h line hline).trim]

/-- A text in which the app finds no result. -/
def Noise (codec : JsonCodec) (text : Text) : Prop :=
  ∀ line ∈ trimmed text, hookResult codec line = none

/-- The app finds what is printed among whole lines of noise and some more of it. -/
theorem filterMap_hookResult {before : List Text} {after : Text}
    (hlines : ∀ line ∈ before, '\n' ∉ line)
    (hbefore : Noise codec (before.flatMap (Lines.terminate '\n'))) (hafter : Noise codec after)
    (h : ∀ line ∈ lines, Spoken codec line) :
    (trimmed (before.flatMap (Lines.terminate '\n') ++ (printed codec lines ++ after))).filterMap
      (hookResult codec) = lines.filterMap decodeResult := by
  have hnone : ∀ text : Text, Noise codec text → (trimmed text).filterMap (hookResult codec) = [] :=
    fun text hn => List.filterMap_eq_nil_iff.mpr hn
  have hprinted : trimmed (printed codec lines ++ after) =
      trimmed (printed codec lines) ++ trimmed after := by
    rw [printed_eq]
    exact trimmed_append (List.forall_mem_map.mpr fun line hline => (h line hline).newline_notMem) _
  rw [trimmed_append hlines, hprinted, List.filterMap_append, List.filterMap_append,
    hnone _ hbefore, hnone _ hafter, List.nil_append, List.append_nil, trimmed_printed h,
    List.filterMap_map]
  exact List.filterMap_congr fun line hline => (h line hline).hookResult

end Reading

section Runs

variable (lib : ReportLib) (pid hops : ℕ) (exe : String) (install : Bool)

/-- A report is about the run of an edit, which did what it says if its names were clear. -/
def TellsEdit (t : HookTarget) (d d' : Disk) (report : Report) : Prop :=
  ∃ nowMs fates result,
    let e := t.edit exe install
    let r := (e.file lib.codec.parse lib.pretty pid t.path nowMs).run (serve hops) d fates
    r.state = d' ∧ r.result = some result ∧ report = reportOf lib result ∧
      (Clear pid hops t.path nowMs d → LinksSeen d r.events →
        Ended lib.codec.parse lib.pretty hops t.path nowMs e d d' result)

def Tells (t : HookTarget) (d d' : Disk) (report : Report) : Prop :=
  report = .skipped ∧ d' = d ∨ TellsEdit lib pid hops exe install t d d' report

/-- Reports about one agent after another. -/
inductive Chain : List HookTarget → Disk → List Report → Disk → Prop
  | nil (d : Disk) : Chain [] d [] d
  | cons {t : HookTarget} {ts : List HookTarget} {d d' d'' : Disk} {report : Report}
      {reports : List Report} : Tells lib pid hops exe install t d d' report →
      Chain ts d' reports d'' → Chain (t :: ts) d (report :: reports) d''

/-- How a hook command ends: all is well, or something is not. -/
structure Ends (ts : List HookTarget) (d : Disk) (out : List Json) (ok : Bool)
    (reports : List Report) (s : Disk × List Json) (status : ℕ) : Prop where
  chain : Chain lib pid hops exe install (ts.take reports.length) d reports s.1
  success : status = 0 → ok = true ∧ reports.length = ts.length ∧
    (∀ report ∈ reports, report.isFailed = false) ∧
      s.2 = out ++ List.zipWith (fun t (report : Report) => report.line lib install t) ts reports
  failure : status ≠ 0 → ok = false ∨ (∃ report ∈ reports, report.isFailed = true) ∨
    status = panicked

variable {lib pid hops exe install} {t : HookTarget} {ts : List HookTarget} {d : Disk}
  {out : List Json} {ok : Bool}

theorem edit_meets (e : Edit) (path : Path) (nowMs : ℕ) :
    ((e.file lib.codec.parse lib.pretty pid path nowMs).lift HookOp.config fun _ a => a).Meets
      (serveHook hops) (fun s result => s.2 = out ∧ ∃ fates,
        let r := (e.file lib.codec.parse lib.pretty pid path nowMs).run (serve hops) d fates
        r.state = s.1 ∧ r.result = some result) (d, out) := by
  intro h
  refine Safe.lift (fun _ s _ s' => s'.1 = s ∧ s'.2 = out) ?_ (fun _ _ _ _ _ _ => trivial) ?_
    (safe_run (serve hops) _ d []) ⟨rfl, rfl⟩
  · rintro _ s _ ⟨s', out'⟩ op v ⟨rfl, rfl⟩
    exact ⟨v.fate, rfl, rfl, rfl⟩
  · rintro _ s _ ⟨s', out'⟩ r ⟨rfl, rfl⟩ ⟨fates, hs, hr, -⟩
    exact ⟨rfl, fates, hs, hr⟩

theorem hookTarget_meets : (hookTarget lib pid exe install t).Meets (serveHook hops)
    (fun s report => s.2 = out ∧ Tells lib pid hops exe install t d s.1 report) (d, out) := by
  refine Meets.ask fun v => ?_
  simp only [serveHook]
  cases v.isDir with
  | false => exact Meets.done ⟨rfl, .inl ⟨rfl, rfl⟩⟩
  | true =>
    refine Meets.ask fun v => ?_
    refine (edit_meets _ _ _).bind ?_
    rintro ⟨d', out'⟩ result ⟨rfl, fates, hs, hr⟩
    refine Meets.done ⟨rfl, .inr ⟨v.nowMs, fates, result, hs, hr, rfl, fun hclear hseen => ?_⟩⟩
    obtain ⟨-, hend⟩ :=
      (file_safe lib.codec.parse lib.pretty (t.edit exe install) [] hclear).run fates
    rw [List.nil_append] at hend
    exact hs ▸ hend result hr hseen

theorem hookAll_meets : (hookAll lib pid exe install ok ts).Meets (serveHook hops)
    (fun s status => ∃ reports, Ends lib pid hops exe install ts d out ok reports s status)
    (d, out) := by
  induction ts generalizing d out ok with
  | nil =>
    refine Meets.done ⟨[], .nil d, fun hstatus => ?_, fun hstatus => ?_⟩
    · cases ok
      · cases hstatus
      · exact ⟨rfl, rfl, nofun, (List.append_nil out).symm⟩
    · cases ok
      · exact .inl rfl
      · cases hstatus rfl
  | cons t ts ih =>
    refine hookTarget_meets.bind ?_
    rintro ⟨d', out'⟩ report ⟨rfl, htells⟩
    refine Meets.ask fun v => ?_
    simp only [serveHook]
    cases v.printed with
    | false =>
      refine Meets.done ⟨[report], .cons htells (.nil d'), nofun, fun _ => .inr (.inr rfl)⟩
    | true =>
      refine ih.mono ?_
      rintro s status ⟨reports, hchain, hsuccess, hfailure⟩
      refine ⟨report :: reports, .cons htells hchain, fun hstatus => ?_, fun hstatus => ?_⟩
      · obtain ⟨hok, hlen, hall, hout⟩ := hsuccess hstatus
        rw [Bool.and_eq_true, Bool.not_eq_true'] at hok
        refine ⟨hok.1, congrArg (· + 1) hlen, List.forall_mem_cons.mpr ⟨hok.2, hall⟩, ?_⟩
        rw [hout, List.append_assoc]
        rfl
      · rcases hfailure hstatus with hok | ⟨other, hmem, hfailed⟩ | hpanic
        · rw [Bool.and_eq_false_iff, Bool.not_eq_false'] at hok
          rcases hok with hok | hfailed
          · exact .inl hok
          · exact .inr (.inl ⟨report, List.mem_cons_self, hfailed⟩)
        · exact .inr (.inl ⟨other, List.mem_cons_of_mem _ hmem, hfailed⟩)
        · exact .inr (.inr hpanic)

/-- Where the probe is in the wrong place, nothing is edited. -/
theorem failAll_meets (error : String) : (failAll lib install error ts).Meets (serveHook hops)
    (fun s status => s.1 = d ∧ status ≠ 0) (d, out) := by
  induction ts generalizing out with
  | nil => exact Meets.done ⟨rfl, nofun⟩
  | cons t ts ih =>
    refine Meets.ask fun v => ?_
    simp only [serveHook]
    cases v.printed with
    | false => exact Meets.done ⟨rfl, nofun⟩
    | true => exact ih

/-- The probe knows where it is, and hooks that it installs would be recognised. -/
def Placed (lib : ReportLib) (install : Bool) (exe : Option String) : Bool :=
  exe.any fun exe => !install || (checkProbeExe lib.isAbsolute exe).isOk

theorem cmdHooks_meets {exe : Option String} {home : List String} :
    (cmdHooks lib pid install exe home).Meets (serveHook hops)
      (fun s status => ∃ reports, Ends lib pid hops (exe.getD "") install (hookTargets home) d []
        (Placed lib install exe) reports s status) (d, []) := by
  cases exe with
  | none => exact Meets.done ⟨[], .nil d, nofun, fun _ => .inl rfl⟩
  | some exe =>
    have hfail : ∀ error, Placed lib install (some exe) = false →
        (failAll lib install error (hookTargets home)).Meets (serveHook hops)
          (fun s status => ∃ reports, Ends lib pid hops exe install (hookTargets home) d []
            (Placed lib install (some exe)) reports s status) (d, []) := by
      intro error hplaced
      refine (failAll_meets error).mono ?_
      rintro s status ⟨rfl, hstatus⟩
      exact ⟨[], .nil _, fun h => absurd h hstatus, fun _ => .inl hplaced⟩
    have hall : Placed lib install (some exe) = true →
        (hookAll lib pid exe install true (hookTargets home)).Meets (serveHook hops)
          (fun s status => ∃ reports, Ends lib pid hops exe install (hookTargets home) d []
            (Placed lib install (some exe)) reports s status) (d, []) := by
      intro hplaced
      rw [hplaced]
      exact hookAll_meets
    rw [cmdHooks]
    cases install with
    | false => exact hall rfl
    | true =>
      simp only [if_true]
      cases hcheck : checkProbeExe lib.isAbsolute exe with
      | error e => exact hfail e (by simp [Placed, hcheck, Except.isOk, Except.toBool])
      | ok _ => exact hall (by simp [Placed, hcheck, Except.isOk, Except.toBool])

end Runs

section Example

def sampleHome : List String := ["/", "home", "u"]

/-- The two lines of a host with Claude Code on it. -/
def sampleLines : List (Json × String) := [
  (.obj [("agent", .str "claude"), ("outcome", .str "installed"), ("path", .str "settings.json")],
    "\x7b\"agent\":\"claude\",\"outcome\":\"installed\",\"path\":\"settings.json\"\x7d"),
  (.obj [("agent", .str "codex"), ("outcome", .str "skipped"),
      ("reason", .str "agent config dir not found")],
    "\x7b\"agent\":\"codex\",\"outcome\":\"skipped\"," ++
      "\"reason\":\"agent config dir not found\"\x7d")]

def sampleReportLib : ReportLib where
  codec := {
    print := fun v => ((sampleLines.find? (·.1 = v)).map (·.2)).getD "null"
    parse := fun text => (sampleLines.find? (·.2 = text)).map (·.1)
    printF32 := fun _ => ""
    readF32 := fun _ => none }
  pretty := linkedText
  display := Path.name
  ioText := fun _ => ""
  jsonText := fun _ => ""
  isAbsolute := fun _ => true

def sampleExternals : Externals String where
  sha256Hex := id
  hookResult := hookResult sampleReportLib.codec
  debug := String.ofList
  debugLines := fun _ => ""

/-- Two agents, of which the second one has no config dir. -/
def sampleFates : List HookFate :=
  List.replicate 12 ⟨true, 7, .works, true⟩ ++ [⟨false, 7, .works, true⟩, ⟨false, 7, .works, true⟩]

def sampleHooks : Run HookAns (Disk × List Json) ℕ :=
  (cmdHooks sampleReportLib 5 true (some "/home/u/.mai/bin/mai-probe") sampleHome).run
    (serveHook 40) (linked, []) sampleFates

end Example

end MultiAi.Hooks
