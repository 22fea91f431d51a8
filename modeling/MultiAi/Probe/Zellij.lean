import MultiAi.Deploy.Detect
import MultiAi.Library.Infix
import MultiAi.Probe.Server
import MultiAi.Protocol.Wire

/-! # The zellij command line

The probe learns of sessions and panes from what zellij prints. A command that does not end in
time, that cannot be started or that fails gives an error.
-/

namespace MultiAi.Zellij

open HookMap Detect Json

/-- What a command printed; `status` is how its exit status reads. -/
structure Output where
  success : Bool
  status : String
  stdout : Text
  stderr : Text

/-- How a command went. -/
inductive Ran where
  | notStarted (error : String)
  | timedOut
  | ended (out : Output)

/-- JSON texts, and why one of them is no list of panes. -/
structure ZellijLib where
  codec : JsonCodec
  jsonError : Text → String

section Sessions

def created : Text := " [Created".toList

def exitedMark : Text := "(EXITED".toList

def parseSession (line : Text) : Option SessionInfo :=
  let name := trim (Infix.before created line)
  if name = [] then none else some ⟨String.ofList name, decide (exitedMark <:+: line)⟩

/-- The sessions on the lines of a listing. -/
def parseSessions (text : Text) : List SessionInfo :=
  ((trimmed text).filter (· ≠ [])).filterMap parseSession

/-- What zellij prints where no session exists. -/
def noSessions : Text := "No active zellij sessions".toList

/-- No session is an empty list whatever the exit status. -/
def sessionsFromOutput (success : Bool) (stdout stderr : Text) :
    Except String (List SessionInfo) :=
  if noSessions <:+: stdout ∨ noSessions <:+: stderr then .ok []
  else if success then .ok (parseSessions stdout)
  else .error ("zellij list-sessions failed: " ++ String.ofList (trim stderr))

end Sessions

section Panes

/-- A pane as zellij lists it. -/
structure RawPane where
  id : ℕ
  isPlugin : Bool
  title : String
  exited : Bool
  tabId : ℕ
  tabName : String
  terminalCommand : Option String
  /-- The command that runs in the pane; none while the shell is idle. -/
  paneCommand : Option String

/-- The running command when known, else the one the pane was started with. -/
def RawPane.info (p : RawPane) : PaneInfo :=
  ⟨p.id, p.tabId, p.tabName, p.title, p.paneCommand.or p.terminalCommand, p.exited⟩

/-- A pane, from an object or from a list of the values of its fields. -/
def decodePane : Json → Option RawPane
  | .obj fields => do
    let id ← field fields "id" (asNat u32) none
    let isPlugin ← field fields "is_plugin" asBool none
    let title ← field fields "title" asStr (some "")
    let exited ← field fields "exited" asBool (some false)
    let tabId ← field fields "tab_id" (asNat u32) (some 0)
    let tabName ← field fields "tab_name" asStr (some "")
    let terminalCommand ← field fields "terminal_command" (asOption asStr) (some none)
    let paneCommand ← field fields "pane_command" (asOption asStr) (some none)
    return ⟨id, isPlugin, title, exited, tabId, tabName, terminalCommand, paneCommand⟩
  | .arr [id, isPlugin, title, exited, tabId, tabName, terminalCommand, paneCommand] => do
    return ⟨← asNat u32 id, ← asBool isPlugin, ← asStr title, ← asBool exited, ← asNat u32 tabId,
      ← asStr tabName, ← asOption asStr terminalCommand, ← asOption asStr paneCommand⟩
  | _ => none

/-- The terminal panes of a listing. -/
def parsePanes (lib : ZellijLib) (json : Text) : Except String (List PaneInfo) :=
  match (lib.codec.parse (String.ofList json)).bind (asList decodePane) with
  | some raw => .ok ((raw.filter (!·.isPlugin)).map RawPane.info)
  | none => .error (lib.jsonError json)

end Panes

section Commands

/-- Seconds that one command may take. -/
def commandTimeout : ℕ := 5

variable (lib : ZellijLib) (exe : String) (run : List String → Ran)

def runRaw (args : List String) : Except String Output :=
  match run args with
  | .ended out => .ok out
  | .timedOut => .error s!"zellij timed out after {commandTimeout}s"
  | .notStarted e => .error ("spawn " ++ exe ++ ": " ++ e)

def runOk (args : List String) : Except String Text := do
  let out ← runRaw exe run args
  if out.success then pure out.stdout
  else throw ("zellij exited with " ++ out.status ++ ": " ++ String.ofList (trim out.stderr))

/-- An action in a session. -/
def actionArgv (session : String) (rest : List String) : List String :=
  ["--session", session, "action"] ++ rest

def paneArg (paneId : ℕ) : String := s!"terminal_{paneId}"

def sessions : Except String (List SessionInfo) := do
  let out ← runRaw exe run ["list-sessions", "-n"]
  sessionsFromOutput out.success out.stdout out.stderr

def panes (session : String) : Except String (List PaneInfo) := do
  let out ← runOk exe run (actionArgv session ["list-panes", "-a", "-j"])
  (parsePanes lib out).mapError ("list-panes json: " ++ ·)

def dumpScreen (p : PaneRef) : Except String String := do
  let out ← runOk exe run (actionArgv p.session ["dump-screen", "-p", paneArg p.paneId])
  pure (String.ofList out)

def paste (p : PaneRef) (text : String) : Except String Unit :=
  (runOk exe run (actionArgv p.session ["paste", "-p", paneArg p.paneId, text])).map fun _ => ()

/-- The tab first, and the pane only if that works. -/
def focus (p : PaneRef) (tabId : ℕ) : Except String Unit := do
  let _ ← runOk exe run (actionArgv p.session ["go-to-tab-by-id", toString tabId])
  let _ ← runOk exe run (actionArgv p.session ["focus-pane-id", paneArg p.paneId])
  pure ()

end Commands

section Trim

variable {front note pat : Text} {c d : Char}

/-- The end of a text without its white space. -/
def trimEnd (text : Text) : Text := (text.reverse.dropWhile isWhiteSpace).reverse

theorem trim_keep (hc : isWhiteSpace c = false) (hd : isWhiteSpace d = false) :
    trim (c :: (front ++ d :: note)) = c :: (front ++ d :: trimEnd note) := by
  have hrev : (c :: (front ++ d :: note)).reverse = note.reverse ++ d :: (c :: front).reverse := by
    simp
  rw [trim, List.dropWhile_cons_of_neg (by simp [hc]), hrev, List.dropWhile_append]
  split_ifs with hblank
  · rw [List.dropWhile_cons_of_neg (by simp [hd]), trimEnd, List.isEmpty_iff.mp hblank]
    simp
  · simp [trimEnd]

theorem exists_blank (text : Text) : ∃ blank, text = trimEnd text ++ blank ∧
    ∀ c ∈ blank, isWhiteSpace c := by
  refine ⟨(text.reverse.takeWhile isWhiteSpace).reverse, ?_, fun c hc => ?_⟩
  · rw [trimEnd, ← List.reverse_append, List.takeWhile_append_dropWhile, List.reverse_reverse]
  · exact List.mem_takeWhile_imp (List.mem_reverse.mp hc)

theorem infix_trimEnd (hpat : pat ≠ []) (h : pat.any isWhiteSpace = false) (text : Text) :
    pat <:+: trimEnd text ↔ pat <:+: text := by
  obtain ⟨blank, htext, hblank⟩ := exists_blank text
  conv_rhs => rw [htext]
  refine (Infix.infix_append_left hpat fun c hc hb => ?_).symm
  exact List.any_eq_false.mp h c hc (hblank c hb)

end Trim

section Listing

/-- A session as zellij lists it: what stands after its name tells its age and its state. -/
structure Session where
  name : Text
  note : Text
  exited : Bool

def Session.line (z : Session) : Text := z.name ++ (created ++ z.note)

def Session.info (z : Session) : SessionInfo := ⟨String.ofList z.name, z.exited⟩

/-- A name that no mark of a line occurs in. -/
structure Session.Plain (z : Session) : Prop where
  some : z.name ≠ []
  trim : trim z.name = z.name
  oneLine : '\n' ∉ z.line
  created : ¬ created <:+: z.name
  exited : ¬ exitedMark <:+: z.name
  note : exitedMark <:+: z.note ↔ z.exited
  listed : ¬ noSessions <:+: z.line

/-- A listing of some sessions. -/
def listing (zs : List Session) : Text := zs.flatMap fun z => Lines.terminate '\n' z.line

theorem trim_cons_of_eq {c : Char} {text : Text} (h : trim (c :: text) = c :: text) :
    isWhiteSpace c = false := by
  by_contra hc
  rw [Bool.not_eq_false] at hc
  have hinfix : trim text <:+: text := trim_infix
  have hlen := hinfix.length_le
  rw [← trim_cons hc, h, List.length_cons] at hlen
  omega

variable {z : Session}

theorem trim_line (h : z.Plain) : trim z.line = z.name ++ (created ++ trimEnd z.note) := by
  obtain ⟨name, note, exited⟩ := z
  cases name with
  | nil => exact absurd rfl h.some
  | cons c name =>
    have hcreated : created = " [Create".toList ++ ['d'] := rfl
    have hend : ∀ rest : Text, c :: name ++ (created ++ rest) =
        c :: ((name ++ " [Create".toList) ++ 'd' :: rest) := by
      intro rest
      rw [hcreated]
      simp only [List.cons_append, List.append_assoc, List.nil_append]
    rw [Session.line, hend, hend]
    exact trim_keep (trim_cons_of_eq h.trim) (by decide)

theorem exitedMark_line (h : z.Plain) : exitedMark <:+: trim z.line ↔ z.exited := by
  have hname : exitedMark <:+: z.name ++ ' ' :: ("[Create".toList ++ 'd' :: trimEnd z.note) ↔
      exitedMark <:+: z.name ∨ exitedMark <:+: "[Create".toList ++ 'd' :: trimEnd z.note :=
    Infix.infix_append_cons (by decide)
  have hnote : exitedMark <:+: "[Create".toList ++ 'd' :: trimEnd z.note ↔
      exitedMark <:+: "[Create".toList ∨ exitedMark <:+: trimEnd z.note :=
    Infix.infix_append_cons (by decide)
  have hno : ¬ exitedMark <:+: "[Create".toList := by
    intro hin
    have hparen : '(' ∈ "[Create".toList := hin.subset (by decide)
    revert hparen
    decide
  rw [trim_line h, ← h.note, ← infix_trimEnd (by decide) (by decide) z.note]
  refine hname.trans ?_
  rw [hnote]
  simp only [h.exited, hno, false_or]

theorem before_line (h : z.Plain) : Infix.before created (trim z.line) = z.name := by
  rw [trim_line h]
  exact @Infix.before_append _ z.name _ ' ' "[Created".toList (by decide) h.created _

theorem trim_line_ne (h : z.Plain) : trim z.line ≠ [] := by
  rw [trim_line h]
  exact fun he => h.some (List.append_eq_nil_iff.mp he).1

theorem parseSession_line (h : z.Plain) : parseSession (trim z.line) = some z.info := by
  simp only [parseSession, before_line h, h.trim, if_neg h.some, exitedMark_line h,
    Bool.decide_eq_true, Session.info]

/-- What zellij lists is read as it is. -/
theorem parseSessions_listing {zs : List Session} (h : ∀ z ∈ zs, z.Plain) :
    parseSessions (listing zs) = zs.map Session.info := by
  have hlines : trimmed (listing zs) = zs.map fun z => trim z.line := by
    have hflat : listing zs = (zs.map Session.line).flatMap (Lines.terminate '\n') ++ [] := by
      rw [List.flatMap_map, List.append_nil, listing]
    rw [hflat, trimmed_flatMap_append (List.forall_mem_map.mpr fun z hz => (h z hz).oneLine),
      List.map_map]
    exact List.append_nil _
  have hkeep : ∀ line ∈ zs.map fun z => trim z.line, decide (line ≠ []) = true :=
    List.forall_mem_map.mpr fun z hz => decide_eq_true (trim_line_ne (h z hz))
  rw [parseSessions, hlines, List.filter_eq_self.mpr hkeep, List.filterMap_map,
    ← List.filterMap_eq_map]
  exact List.filterMap_congr fun z hz => parseSession_line (h z hz)

/-- No line of a listing says that there is no session. -/
theorem noSessions_listing {zs : List Session} (h : ∀ z ∈ zs, z.Plain) :
    ¬ noSessions <:+: listing zs := by
  induction zs with
  | nil => decide
  | cons z zs ih =>
    obtain ⟨hz, hzs⟩ := List.forall_mem_cons.mp h
    have hsplit : listing (z :: zs) = z.line ++ '\n' :: listing zs := by
      simp [listing, Lines.terminate]
    rw [hsplit, Infix.infix_append_cons (by decide)]
    exact not_or.mpr ⟨hz.listed, ih hzs⟩

end Listing

section Described

/-- The fields of a pane that the probe reads, as zellij prints them. -/
def RawPane.fields (p : RawPane) : List (String × Json) :=
  [("id", ofNat p.id), ("is_plugin", .bool p.isPlugin), ("title", .str p.title),
    ("exited", .bool p.exited), ("tab_id", ofNat p.tabId), ("tab_name", .str p.tabName),
    ("terminal_command", ofOption .str p.terminalCommand)] ++
  present "pane_command" .str p.paneCommand

/-- An object that describes a pane, with other fields and in any order. -/
structure RawPane.Described (p : RawPane) (fields : List (String × Json)) : Prop where
  id : p.id < u32
  tabId : p.tabId < u32
  fields : ∀ name ∈ ["id", "is_plugin", "title", "exited", "tab_id", "tab_name",
    "terminal_command", "pane_command"], fields.filter (·.1 = name) = p.fields.filter (·.1 = name)

variable {p : RawPane} {fields : List (String × Json)}

theorem field_congr {α : Type} {fields' : List (String × Json)} {name : String}
    {read : Json → Option α} {missing : Option α}
    (h : fields.filter (·.1 = name) = fields'.filter (·.1 = name)) :
    field fields name read missing = field fields' name read missing := by
  rw [field, field, h]

theorem decodePane_described (h : p.Described fields) : decodePane (.obj fields) = some p := by
  have hfield : decodePane (.obj fields) = decodePane (.obj p.fields) := by
    have hf := h.fields
    simp only [List.forall_mem_cons] at hf
    obtain ⟨h₁, h₂, h₃, h₄, h₅, h₆, h₇, h₈, -⟩ := hf
    simp only [decodePane, field_congr h₁, field_congr h₂, field_congr h₃, field_congr h₄,
      field_congr h₅, field_congr h₆, field_congr h₇, field_congr h₈]
  rw [hfield]
  obtain ⟨id, isPlugin, title, exited, tabId, tabName, terminalCommand, paneCommand⟩ := p
  have hid := asNat_ofNat h.id
  have htab := asNat_ofNat h.tabId
  dsimp only at hid htab
  cases terminalCommand <;> cases paneCommand <;>
    simp [decodePane, RawPane.fields, field_cons, hid, htab, asOption, ofOption, asStr, asBool]

/-- The terminal panes among some panes. -/
def terminals (ps : List RawPane) : List PaneInfo := (ps.filter (!·.isPlugin)).map RawPane.info

/-- A listing of some panes. -/
def Describe (vs : List Json) (ps : List RawPane) : Prop :=
  List.Forall₂ (fun v (p : RawPane) => ∃ fields, v = .obj fields ∧ p.Described fields) vs ps

theorem parsePanes_describe {lib : ZellijLib} {json : Text} {vs : List Json} {ps : List RawPane}
    (hparse : lib.codec.parse (String.ofList json) = some (.arr vs)) (h : Describe vs ps) :
    parsePanes lib json = .ok (terminals ps) := by
  have hread : asList decodePane (.arr vs) = some ps := by
    clear hparse
    rw [asList]
    induction h with
    | nil => rfl
    | cons hv _ ih =>
      obtain ⟨fields, rfl, hp⟩ := hv
      rw [List.mapM_cons, decodePane_described hp]
      simp [ih]
  rw [parsePanes, hparse, Option.bind_some, hread]
  rfl

end Described

section Answers

variable {lib : ZellijLib} {exe : String} {run : List String → Ran} {out : Output}

/-- An output that lists some sessions, or says that there is none. -/
def Output.Lists (out : Output) (zs : List Session) : Prop :=
  (zs = [] ∧ (noSessions <:+: out.stdout ∨ noSessions <:+: out.stderr)) ∨
    out.success ∧ out.stdout = listing zs ∧ ¬ noSessions <:+: out.stderr ∧ ∀ z ∈ zs, z.Plain

/-- An output of a command that failed for another reason. -/
structure Output.Fails (out : Output) : Prop where
  status : out.success = false
  stdout : ¬ noSessions <:+: out.stdout
  stderr : ¬ noSessions <:+: out.stderr

theorem sessionsFromOutput_lists {zs : List Session} (h : out.Lists zs) :
    sessionsFromOutput out.success out.stdout out.stderr = .ok (zs.map Session.info) := by
  rcases h with ⟨rfl, hno⟩ | ⟨hs, hout, herr, hplain⟩
  · rw [sessionsFromOutput, if_pos hno]
    rfl
  · have hno : ¬ (noSessions <:+: out.stdout ∨ noSessions <:+: out.stderr) :=
      not_or.mpr ⟨hout ▸ noSessions_listing hplain, herr⟩
    rw [sessionsFromOutput, if_neg hno, if_pos hs, hout, parseSessions_listing hplain]

theorem sessionsFromOutput_fails (h : out.Fails) :
    sessionsFromOutput out.success out.stdout out.stderr =
      .error ("zellij list-sessions failed: " ++ String.ofList (trim out.stderr)) := by
  rw [sessionsFromOutput, if_neg (not_or.mpr ⟨h.stdout, h.stderr⟩), h.status]
  rfl

theorem of_bind {ε α β : Type} {x : Except ε α} {f : α → Except ε β} {b : β}
    (h : x >>= f = .ok b) : ∃ a, x = .ok a ∧ f a = .ok b := by
  cases x with
  | error e => cases h
  | ok a => exact ⟨a, rfl, h⟩

theorem runRaw_ok {args : List String} (h : runRaw exe run args = .ok out) :
    run args = .ended out := by
  rw [runRaw] at h
  split at h
  · cases h
    assumption
  · cases h
  · cases h

theorem runOk_ok {args : List String} {text : Text} (h : runOk exe run args = .ok text) :
    ∃ out, run args = .ended out ∧ out.success ∧ out.stdout = text := by
  obtain ⟨out, hraw, hrest⟩ := of_bind h
  split_ifs at hrest with hs
  exact ⟨out, runRaw_ok hraw, hs, Except.ok.inj hrest⟩

/-- What zellij lists, or an error. -/
theorem sessions_answer {zs : List Session}
    (h : ∀ out, run ["list-sessions", "-n"] = .ended out → out.Lists zs ∨ out.Fails)
    {found : List SessionInfo} (hs : sessions exe run = .ok found) :
    found = zs.map Session.info := by
  obtain ⟨out, hraw, hrest⟩ := of_bind hs
  rcases h out (runRaw_ok hraw) with hl | hf
  · exact (Except.ok.inj ((sessionsFromOutput_lists hl).symm.trans hrest)).symm
  · cases (sessionsFromOutput_fails hf).symm.trans hrest

/-- An output that lists some panes. -/
def Output.Describes (lib : ZellijLib) (out : Output) (ps : List RawPane) : Prop :=
  ∃ vs, lib.codec.parse (String.ofList out.stdout) = some (.arr vs) ∧ Describe vs ps

theorem panes_answer {session : String} {ps : List RawPane}
    (h : ∀ out, run (actionArgv session ["list-panes", "-a", "-j"]) = .ended out →
      out.success → out.Describes lib ps)
    {found : List PaneInfo} (hp : panes lib exe run session = .ok found) :
    found = terminals ps := by
  obtain ⟨text, hok, hrest⟩ := of_bind hp
  obtain ⟨out, hrun, hs, rfl⟩ := runOk_ok hok
  obtain ⟨vs, hparse, hvs⟩ := h out hrun hs
  rw [parsePanes_describe hparse hvs] at hrest
  exact (Except.ok.inj hrest).symm

end Answers

end MultiAi.Zellij
