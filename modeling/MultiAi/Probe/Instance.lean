import MultiAi.Library.Log
import MultiAi.Probe.SpoolDir

/-! # The record of a client's serve

A `serve` ends the one that is recorded for its client, records itself, and takes its record away
when it is over. Any number of processes do so side by side, and any may die between two steps.
-/

namespace MultiAi.Instance

open Std
open Spool (Dir)

/-- `serve-<client>.pid`, or `serve.pid` for an empty id. -/
def pidFile (id : ClientId) : String :=
  if id.val.isEmpty then "serve.pid" else "serve-" ++ id.val ++ ".pid"

/-- The file that a pid is written to before it gets its name. -/
def tmpFile (id : ClientId) (pid : UInt32) : String :=
  pidFile id ++ "." ++ toString pid.toNat ++ ".tmp"

/-- A `u32` as the standard library reads one. -/
def parseU32 (text : List Char) : Option UInt32 :=
  ((Json.readNat (if text.head? = some '+' then text.tail else text)).filter (· < 2 ^ 32)).map
    UInt32.ofNat

/-- The pid in the bytes of a file. -/
def readPid (bytes : List UInt8) : Option UInt32 :=
  (Utf8.decode? bytes).bind fun text => parseU32 (HookMap.trim text.toList)

def pidBytes (pid : UInt32) : List UInt8 := Utf8.encode (toString pid.toNat).toList

/-- What a probe does next. The first four steps are those of `stop_recorded`. -/
inductive Stage where
  | read
  | check (old : UInt32)
  | kill (old : UInt32)
  | wait (old : UInt32)
  | write
  | rename
  | serve
  | reread
  | remove
  deriving DecidableEq

/-- A `serve` of a client, or a `stop`, which is over when the recorded process is stopped. -/
structure Job where
  id : ClientId
  stops : Bool
  stage : Stage
  deriving DecidableEq

inductive Proc where
  | probe (job : Job)
  | other (name : String)
  deriving DecidableEq

/-- Whether the name of a process starts with `mai-probe`. -/
def Proc.isProbe : Proc → Bool
  | .probe _ => true
  | .other name => "mai-probe".toList.isPrefixOf name.toList

inductive Program where
  | serve (client : String)
  | stop (client : String)
  | other (name : String)

def Program.proc : Program → Proc
  | .serve client => .probe ⟨clientId client, false, .read⟩
  | .stop client => .probe ⟨clientId client, true, .read⟩
  | .other name => .other name

theorem Program.stage_proc (program : Program) {job : Job} (h : program.proc = .probe job) :
    job.stage = .read := by
  cases program <;> cases h <;> rfl

/-- How a step goes: a look or a file operation may fail, a write may leave a part of its bytes,
and a wait may be too long. -/
inductive Fate where
  | works
  | fails
  | tears (left : List UInt8)
  | late
  deriving DecidableEq

inductive Act where
  | spawn (pid : UInt32) (program : Program)
  | die (pid : UInt32)
  | next (pid : UInt32) (fate : Fate)

/-- The process that an act is about. -/
def Act.pid : Act → UInt32
  | .spawn pid _ | .die pid | .next pid _ => pid

/-- What a process has seen or done. -/
inductive Fact where
  | found (pid : UInt32) (id : ClientId) (old : UInt32)
  | saw (pid old : UInt32)
  | killed (pid old : UInt32)
  | recorded (pid : UInt32) (id : ClientId)
  | removed (pid : UInt32) (id : ClientId)
  deriving DecidableEq

/-- The processes by pid, and the files of the data directory. -/
structure Host where
  procs : UInt32 → Option Proc
  dir : Dir

def Job.at (job : Job) (stage : Stage) : Option Proc := some (.probe { job with stage })

/-- What a probe is when no recorded process is left. -/
def Job.stopped (job : Job) : Option Proc := if job.stops then none else job.at .write

namespace Host

def start : Host := ⟨fun _ => none, ∅⟩

variable (h : Host)

def put (pid : UInt32) (proc : Option Proc) : Host :=
  { h with procs := Function.update h.procs pid proc }

def setDir (dir : Dir) : Host := { h with dir := dir }

@[simp] theorem put_self (pid : UInt32) (proc : Option Proc) : (h.put pid proc).procs pid = proc :=
  Function.update_self ..

@[simp] theorem put_ne {pid pid' : UInt32} (hne : pid' ≠ pid) (proc : Option Proc) :
    (h.put pid proc).procs pid' = h.procs pid' := Function.update_of_ne hne ..

@[simp] theorem put_dir (pid : UInt32) (proc : Option Proc) : (h.put pid proc).dir = h.dir := rfl

@[simp] theorem setDir_dir (dir : Dir) : (h.setDir dir).dir = dir := rfl

@[simp] theorem setDir_procs (dir : Dir) : (h.setDir dir).procs = h.procs := rfl

/-- The pid in the file of a client. -/
def recordedPid (id : ClientId) : Fate → Option UInt32
  | .fails => none
  | _ => h.dir[pidFile id]?.bind readPid

/-- Is `pid` a live process whose name starts with `mai-probe`? -/
def isProbe (pid : UInt32) : Fate → Bool
  | .fails => false
  | _ => (h.procs pid).any Proc.isProbe

/-- The next step of a probe. -/
def next (pid : UInt32) (job : Job) (fate : Fate) : Host × List Fact :=
  match job.stage with
  | .read =>
    match h.recordedPid job.id fate with
    | none => (h.put pid job.stopped, [])
    | some old => (h.put pid (if old = pid then job.stopped else job.at (.check old)),
        [.found pid job.id old])
  | .check old =>
    if h.isProbe old fate then (h.put pid (job.at (.kill old)), [.saw pid old])
    else (h.put pid job.stopped, [])
  -- the process that is killed dies later, if it does
  | .kill old => (h.put pid (job.at (.wait old)), [.killed pid old])
  | .wait old =>
    (h.put pid (if h.isProbe old fate && fate ≠ .late then job.at (.wait old) else job.stopped), [])
  | .write =>
    match fate with
    | .fails => (h.put pid none, [])
    | .tears left => ((h.setDir (h.dir.insert (tmpFile job.id pid) left)).put pid none, [])
    | _ => ((h.setDir (h.dir.insert (tmpFile job.id pid) (pidBytes pid))).put pid
        (job.at .rename), [])
  | .rename =>
    match fate, h.dir[tmpFile job.id pid]? with
    | .fails, _ | _, none => (h.put pid none, [])
    | _, some bytes =>
      ((h.setDir ((h.dir.erase (tmpFile job.id pid)).insert (pidFile job.id) bytes)).put pid
        (job.at .serve), [.recorded pid job.id])
  | .serve => (h.put pid (job.at .reread), [])
  | .reread =>
    if h.recordedPid job.id fate = some pid then
      (h.put pid (job.at .remove), [.found pid job.id pid])
    else (h.put pid none, [])
  | .remove =>
    match fate with
    | .fails => (h.put pid none, [])
    | _ => ((h.setDir (h.dir.erase (pidFile job.id))).put pid none, [.removed pid job.id])

/-- A pid is given to one process at a time, and again when that is gone. -/
def step (h : Host) : Act → Host × List Fact
  | .spawn pid program =>
    if h.procs pid = none then (h.put pid (some program.proc), []) else (h, [])
  | .die pid => (h.put pid none, [])
  | .next pid fate =>
    match h.procs pid with
    | some (.probe job) => h.next pid job fate
    | _ => (h, [])

end Host

/-- What a fact says about the record of a client. -/
def Fact.record (id : ClientId) : Fact → Option (Option UInt32)
  | .recorded pid id' => if id' = id then some (some pid) else none
  | .removed _ id' => if id' = id then some none else none
  | _ => none

/-- Who is recorded for a client, after these facts. -/
def holderAfter (who : ClientId → Option UInt32) (log : List Fact) (id : ClientId) :
    Option UInt32 := Log.latest (Fact.record id) (who id) log

/-- The process that recorded itself last for a client, unless its record was removed since. -/
def holder (log : List Fact) : ClientId → Option UInt32 := holderAfter (fun _ => none) log

theorem holder_append (log out : List Fact) :
    holder (log ++ out) = holderAfter (holder log) out := funext fun _ => Log.latest_append

section Names

/-- What a file of the data directory is for. -/
inductive FileKey where
  | record (id : ClientId)
  | tmp (id : ClientId) (pid : UInt32)
  deriving DecidableEq

def FileKey.name : FileKey → String
  | .record id => pidFile id
  | .tmp id pid => tmpFile id pid

/-- The name of a client's file, without its ending. -/
def serveName (id : ClientId) : String := if id.val.isEmpty then "serve" else "serve-" ++ id.val

theorem toList_pidFile (id : ClientId) :
    (pidFile id).toList = (serveName id).toList ++ '.' :: "pid".toList := by
  rw [pidFile, serveName]
  split_ifs <;> simp

theorem toList_tmpFile (id : ClientId) (pid : UInt32) : (tmpFile id pid).toList =
    (serveName id).toList ++
      '.' :: ("pid.".toList ++ ((toString pid.toNat).toList ++ ".tmp".toList)) := by
  rw [tmpFile, String.toList_append, String.toList_append, String.toList_append, toList_pidFile]
  simp

theorem dot_notMem_serveName (id : ClientId) : '.' ∉ (serveName id).toList := by
  rw [serveName]
  split_ifs
  · decide
  · rw [String.toList_append, List.mem_append, not_or]
    exact ⟨by decide, id.notMem (by decide)⟩

theorem serveName_inj {id id' : ClientId} (h : serveName id = serveName id') : id = id' := by
  have hlen : ∀ i : String, "serve" ≠ "serve-" ++ i := by
    intro i h
    have := congrArg (fun s => s.toList.length) h
    simp at this
  apply Subtype.ext
  rw [serveName, serveName] at h
  split_ifs at h with hi hi'
  · rw [String.isEmpty_iff] at hi hi'
    rw [hi, hi']
  · exact (hlen _ h).elim
  · exact (hlen _ h.symm).elim
  · exact String.append_right_inj _ |>.mp h

/-- What stands behind the first dot tells a record from a file that is being written. -/
theorem name_injective : Function.Injective FileKey.name := by
  intro k k' h
  have hsplit : ∀ {id id' : ClientId} {post post' : List Char},
      (serveName id).toList ++ '.' :: post = (serveName id').toList ++ '.' :: post' →
        id = id' ∧ post = post' := by
    intro id id' post post' h
    obtain ⟨hid, hpost⟩ :=
      Split.append_inj_of_notMem h (dot_notMem_serveName id) (dot_notMem_serveName id')
    exact ⟨serveName_inj (String.toList_inj.mp hid), hpost⟩
  have hend : ∀ digits : List Char, "pid".toList ≠ "pid.".toList ++ (digits ++ ".tmp".toList) := by
    intro digits h
    have := congrArg List.length h
    simp at this
  cases k <;> cases k' <;> simp only [FileKey.name, ← String.toList_inj, toList_pidFile,
    toList_tmpFile] at h
  · rw [(hsplit h).1]
  · exact absurd (hsplit h).2 (hend _)
  · exact absurd (hsplit h).2.symm (hend _)
  · obtain ⟨rfl, hpid⟩ := hsplit h
    have hnat := Spool.toString_inj (List.append_cancel_right (List.append_cancel_left hpid))
    rw [UInt32.toNat_inj.mp hnat]

theorem parseU32_toString (pid : UInt32) : parseU32 (toString pid.toNat).toList = some pid := by
  have hhead : (toString pid.toNat).toList.head? ≠ some '+' := fun hp =>
    absurd (Spool.digits_toString (List.mem_of_mem_head? hp)) (by decide)
  have hlt : pid.toNat < 2 ^ 32 := pid.toNat_lt
  rw [parseU32, if_neg hhead, Json.readNat_toString, Option.filter_some,
    if_pos (by simpa using hlt), Option.map_some, UInt32.ofNat_toNat]

/-- A pid is read back. -/
theorem readPid_pidBytes (pid : UInt32) : readPid (pidBytes pid) = some pid := by
  rw [readPid, pidBytes, Utf8.decode?_encode, Option.bind_some,
    Spool.trim_digits fun c => Spool.digits_toString]
  exact parseU32_toString pid

end Names

section Files

variable {h : Host} {who : ClientId → Option UInt32} {pid : UInt32} {job : Job} {fate : Fate}
  {proc : Option Proc}

/-- A probe changes itself only. -/
theorem procs_next {pid' : UInt32} (job : Job) (fate : Fate) (hpid : pid' ≠ pid) :
    (h.next pid job fate).1.procs pid' = h.procs pid' := by
  unfold Host.next
  split <;> try split
  all_goals exact Host.put_ne _ hpid _

theorem procs_run (h : Host) {acts : List Act} (hacts : ∀ act ∈ acts, act.pid ≠ pid) :
    (Machine.run Host.step h acts).procs pid = h.procs pid := by
  refine Machine.run_invariant (P := fun h' : Host => h'.procs pid = h.procs pid) ?_ rfl hacts
  intro h' act hp hact
  rw [← hp]
  cases act with
  | spawn pid' program =>
    rw [Host.step]
    split_ifs
    · exact Host.put_ne _ (Ne.symm hact) _
    · rfl
  | die pid' => exact Host.put_ne _ (Ne.symm hact) _
  | next pid' fate =>
    rw [Host.step]
    split
    · exact procs_next _ _ (Ne.symm hact)
    · rfl

theorem getElem?_insert_name (dir : Dir) (k k' : FileKey) (bytes : List UInt8) :
    (dir.insert k.name bytes)[k'.name]? = if k = k' then some bytes else dir[k'.name]? := by
  rw [ExtTreeMap.getElem?_insert]
  simp only [LawfulEqCmp.compare_eq_iff_eq, name_injective.eq_iff]

theorem getElem?_erase_name (dir : Dir) (k k' : FileKey) :
    (dir.erase k.name)[k'.name]? = if k = k' then none else dir[k'.name]? := by
  rw [ExtTreeMap.getElem?_erase]
  simp only [LawfulEqCmp.compare_eq_iff_eq, name_injective.eq_iff]

/-- The files are those of the recorded processes, and what a process has written is there. -/
structure Keeps (who : ClientId → Option UInt32) (h : Host) : Prop where
  file : ∀ id, h.dir[(FileKey.record id).name]? = (who id).map pidBytes
  written : ∀ pid job, h.procs pid = some (.probe job) → job.stage = .rename →
    h.dir[(FileKey.tmp job.id pid).name]? = some (pidBytes pid)

theorem Keeps.start : Keeps (fun _ => none) .start where
  file id := by simp [Host.start]
  written pid job hp := by simp [Host.start] at hp

/-- A process goes on, and does not have a file to rename. -/
theorem Keeps.put (hk : Keeps who h)
    (hproc : ∀ job, proc = some (.probe job) → job.stage ≠ .rename) :
    Keeps who (h.put pid proc) where
  file := hk.file
  written pid' job hp hs := by
    by_cases hpid : pid' = pid
    · subst hpid
      rw [Host.put_self] at hp
      exact absurd hs (hproc job hp)
    · rw [Host.put_ne _ hpid] at hp
      exact hk.written pid' job hp hs

theorem Keeps.at {stage : Stage} (hk : Keeps who h) (hs : stage ≠ .rename) :
    Keeps who (h.put pid (job.at stage)) := by
  apply hk.put
  rintro job' ⟨⟩
  exact hs

theorem Keeps.ends (hk : Keeps who h) : Keeps who (h.put pid none) := hk.put nofun

theorem Keeps.stopped (hk : Keeps who h) : Keeps who (h.put pid job.stopped) := by
  rw [Job.stopped]
  split_ifs
  · exact hk.ends
  · exact hk.at nofun

theorem Keeps.recordedPid (hk : Keeps who h) (id : ClientId) :
    h.recordedPid id fate = if fate = .fails then none else who id := by
  have hfile : h.dir[pidFile id]?.bind readPid = who id := by
    have hbytes : h.dir[pidFile id]? = _ := hk.file id
    rw [hbytes]
    cases who id with
    | none => rfl
    | some pid => rw [Option.map_some, Option.bind_some, readPid_pidBytes]
  cases fate <;> simp [Host.recordedPid, hfile]

/-- A file that is being written is changed. -/
theorem Keeps.insert (hk : Keeps who h) {id : ClientId} {bytes : List UInt8}
    (hproc : ∀ job, proc = some (.probe job) → bytes = pidBytes pid ∧ job.id = id) :
    Keeps who ((h.setDir (h.dir.insert (FileKey.tmp id pid).name bytes)).put pid proc) where
  file id' := by
    rw [Host.put_dir, Host.setDir_dir, getElem?_insert_name, if_neg nofun, hk.file id']
  written pid' job hp hs := by
    rw [Host.put_dir, Host.setDir_dir, getElem?_insert_name]
    by_cases hpid : pid' = pid
    · subst hpid
      rw [Host.put_self] at hp
      obtain ⟨hbytes, hid⟩ := hproc job hp
      rw [hid, hbytes, if_pos rfl]
    · rw [Host.put_ne _ hpid] at hp
      rw [if_neg (by simp [Ne.symm hpid]), hk.written pid' job hp hs]

/-- A file that is written gets its name. -/
theorem Keeps.rename (hk : Keeps who h) (hjob : h.procs pid = some (.probe job))
    (hs : job.stage = .rename) :
    h.dir[tmpFile job.id pid]? = some (pidBytes pid) ∧ Keeps (Function.update who job.id (some pid))
      ((h.setDir ((h.dir.erase (FileKey.tmp job.id pid).name).insert (FileKey.record job.id).name
        (pidBytes pid))).put pid (job.at .serve)) := by
  refine ⟨hk.written pid job hjob hs, fun id => ?_, fun pid' job' hp hs' => ?_⟩
  · rw [Host.put_dir, Host.setDir_dir, getElem?_insert_name, getElem?_erase_name,
      Function.update_apply]
    by_cases hid : id = job.id
    · simp [hid]
    · rw [if_neg (by simp [Ne.symm hid]), if_neg nofun, if_neg hid, hk.file id]
  · rw [Host.put_dir, Host.setDir_dir, getElem?_insert_name, getElem?_erase_name, if_neg nofun]
    by_cases hpid : pid' = pid
    · subst hpid
      rw [Host.put_self] at hp
      cases hp
      cases hs'
    · rw [Host.put_ne _ hpid] at hp
      rw [if_neg (by simp [Ne.symm hpid]), hk.written pid' job' hp hs']

/-- A record is taken away. -/
theorem Keeps.remove (hk : Keeps who h) (id : ClientId) : Keeps (Function.update who id none)
    ((h.setDir (h.dir.erase (FileKey.record id).name)).put pid none) := by
  refine ⟨fun id' => ?_, fun pid' job hp hs => ?_⟩
  · rw [Host.put_dir, Host.setDir_dir, getElem?_erase_name, Function.update_apply]
    by_cases hid : id' = id
    · simp [hid]
    · rw [if_neg (by simp [Ne.symm hid]), if_neg hid, hk.file id']
  · rw [Host.put_dir, Host.setDir_dir, getElem?_erase_name, if_neg nofun]
    by_cases hpid : pid' = pid
    · subst hpid
      rw [Host.put_self] at hp
      cases hp
    · rw [Host.put_ne _ hpid] at hp
      exact hk.written pid' job hp hs

end Files

section Facts

variable {h : Host} {log out : List Fact} {pid : UInt32} {job : Job} {fate : Fate}
  {proc : Option Proc} {f : Fact}

@[simp] theorem holderAfter_nil (who : ClientId → Option UInt32) : holderAfter who [] = who := rfl

theorem holderAfter_of_silent (who : ClientId → Option UInt32) (hf : ∀ id, f.record id = none) :
    holderAfter who [f] = who :=
  funext fun id => Log.latest_of_silent fun _ he => List.mem_singleton.mp he ▸ hf id

theorem holderAfter_recorded (who : ClientId → Option UInt32) (pid : UInt32) (id : ClientId) :
    holderAfter who [.recorded pid id] = Function.update who id (some pid) := by
  funext id'
  rw [Function.update_apply]
  by_cases hid : id = id'
  · simp [holderAfter, Log.latest, Fact.record, hid]
  · simp [holderAfter, Log.latest, Fact.record, hid, Ne.symm hid]

theorem holderAfter_removed (who : ClientId → Option UInt32) (pid : UInt32) (id : ClientId) :
    holderAfter who [.removed pid id] = Function.update who id none := by
  funext id'
  rw [Function.update_apply]
  by_cases hid : id = id'
  · simp [holderAfter, Log.latest, Fact.record, hid]
  · simp [holderAfter, Log.latest, Fact.record, hid, Ne.symm hid]

/-- What must have come before a fact. -/
def Fact.Meant (before : List Fact) : Fact → Prop
  | .found _ id old => holder before id = some old
  | .killed pid old => old ≠ pid ∧ ∃ id, [.found pid id old, .saw pid old].Sublist before
  | .removed pid id => .found pid id pid ∈ before
  | _ => True

/-- What a process has seen. -/
def Knows (log : List Fact) (pid : UInt32) (job : Job) : Prop :=
  match job.stage with
  | .check old => old ≠ pid ∧ [.found pid job.id old].Sublist log
  | .kill old => old ≠ pid ∧ [.found pid job.id old, .saw pid old].Sublist log
  | .remove => .found pid job.id pid ∈ log
  | _ => True

theorem Knows.append (hk : Knows log pid job) (out : List Fact) : Knows (log ++ out) pid job := by
  unfold Knows at hk ⊢
  cases hs : job.stage <;> rw [hs] at hk
  case check => exact ⟨hk.1, hk.2.trans (List.sublist_append_left ..)⟩
  case kill => exact ⟨hk.1, hk.2.trans (List.sublist_append_left ..)⟩
  case remove => exact List.mem_append_left _ hk
  all_goals trivial

/-- The files and what the processes know are as the log says, and each fact has its reasons. -/
structure Told (log : List Fact) (h : Host) : Prop where
  keeps : Keeps (holder log) h
  knows : ∀ pid job, h.procs pid = some (.probe job) → Knows log pid job
  meant : Log.Each (fun before f => f.Meant before) log

theorem Told.start : Told [] .start where
  keeps := .start
  knows pid job hp := by simp [Host.start] at hp
  meant := Log.each_nil

theorem Told.silent {h' : Host} (ht : Told log h) (hprocs : h'.procs = h.procs)
    (hk : Keeps (holder log) (h'.put pid proc))
    (hp : ∀ job, proc = some (.probe job) → Knows log pid job) : Told log (h'.put pid proc) where
  keeps := hk
  knows pid' job hjob := by
    by_cases hpid : pid' = pid
    · subst hpid
      rw [Host.put_self] at hjob
      exact hp job hjob
    · rw [Host.put_ne _ hpid, hprocs] at hjob
      exact ht.knows pid' job hjob
  meant := ht.meant

theorem Told.concat {h' : Host} (ht : Told log h) (hprocs : h'.procs = h.procs)
    (hf : f.Meant log) (hk : Keeps (holderAfter (holder log) [f]) (h'.put pid proc))
    (hp : ∀ job, proc = some (.probe job) → Knows (log ++ [f]) pid job) :
    Told (log ++ [f]) (h'.put pid proc) where
  keeps := by rwa [holder_append]
  knows pid' job hjob := by
    by_cases hpid : pid' = pid
    · subst hpid
      rw [Host.put_self] at hjob
      exact hp job hjob
    · rw [Host.put_ne _ hpid, hprocs] at hjob
      exact (ht.knows pid' job hjob).append [f]
  meant := Log.each_concat.mpr ⟨ht.meant, hf⟩

theorem Told.stopped (ht : Told log h) : Told log (h.put pid job.stopped) := by
  refine ht.silent rfl ht.keeps.stopped fun job' hjob => ?_
  rw [Job.stopped] at hjob
  split_ifs at hjob
  cases hjob
  trivial

theorem Told.ends (ht : Told log h) : Told log (h.put pid none) :=
  ht.silent rfl ht.keeps.ends nofun

theorem Told.at {stage : Stage} (ht : Told log h) (hs : stage ≠ .rename)
    (hk : Knows log pid { job with stage }) : Told log (h.put pid (job.at stage)) := by
  refine ht.silent rfl (ht.keeps.at hs) ?_
  rintro job' ⟨⟩
  exact hk

/-- A process that sees or does something, and goes on. -/
theorem Told.tells {stage : Stage} (ht : Told log h) (hs : stage ≠ .rename) (hf : f.Meant log)
    (hsilent : ∀ id, f.record id = none) (hk : Knows (log ++ [f]) pid { job with stage }) :
    Told (log ++ [f]) (h.put pid (job.at stage)) := by
  refine ht.concat rfl hf ?_ ?_
  · rw [holderAfter_of_silent _ hsilent]
    exact ht.keeps.at hs
  · rintro job' ⟨⟩
    exact hk

theorem Told.recordedPid {id : ClientId} {old : UInt32} (ht : Told log h)
    (hr : h.recordedPid id fate = some old) : holder log id = some old := by
  rw [ht.keeps.recordedPid] at hr
  split_ifs at hr
  exact hr

theorem Told.next (ht : Told log h) (hjob : h.procs pid = some (.probe job)) (fate : Fate) :
    Told (log ++ (h.next pid job fate).2) (h.next pid job fate).1 := by
  have hknows := ht.knows pid job hjob
  unfold Knows at hknows
  unfold Host.next
  cases hs : job.stage with
  | read =>
    dsimp only
    cases hr : h.recordedPid job.id fate with
    | none => simpa using ht.stopped
    | some old =>
      have hm : (Fact.found pid job.id old).Meant log := ht.recordedPid hr
      dsimp only
      split_ifs with hold
      · refine ht.concat rfl hm ?_ fun job' hj => ?_
        · rw [holderAfter_of_silent _ fun _ => rfl]
          exact ht.keeps.stopped
        · rw [Job.stopped] at hj
          split_ifs at hj
          cases hj
          trivial
      · exact ht.tells nofun hm (fun _ => rfl) ⟨hold, List.sublist_append_right ..⟩
  | check old =>
    rw [hs] at hknows
    dsimp only
    split_ifs
    · exact ht.tells nofun trivial (fun _ => rfl) ⟨hknows.1, hknows.2.append (.refl _)⟩
    · simpa using ht.stopped
  | kill old =>
    rw [hs] at hknows
    exact ht.tells nofun ⟨hknows.1, job.id, hknows.2⟩ (fun _ => rfl) trivial
  | wait old =>
    dsimp only
    rw [List.append_nil]
    split_ifs
    · exact ht.at nofun trivial
    · exact ht.stopped
  | write =>
    have hnone : ∀ left : List UInt8,
        Told log ((h.setDir (h.dir.insert (tmpFile job.id pid) left)).put pid none) :=
      fun left => ht.silent rfl (ht.keeps.insert nofun) nofun
    have hwhole : Told log ((h.setDir (h.dir.insert (tmpFile job.id pid) (pidBytes pid))).put
        pid (job.at .rename)) := by
      refine ht.silent rfl (ht.keeps.insert ?_) ?_
      · rintro job' ⟨⟩
        exact ⟨rfl, rfl⟩
      · rintro job' ⟨⟩
        trivial
    cases fate with
    | fails => simpa using ht.ends
    | tears left => simpa using hnone left
    | works | late => simpa using hwhole
  | rename =>
    obtain ⟨hfile, hk⟩ := ht.keeps.rename hjob hs
    have hdone : Told (log ++ [.recorded pid job.id])
        ((h.setDir ((h.dir.erase (tmpFile job.id pid)).insert (pidFile job.id) (pidBytes pid))).put
          pid (job.at .serve)) := by
      refine ht.concat rfl trivial ?_ ?_
      · rw [holderAfter_recorded]
        exact hk
      · rintro job' ⟨⟩
        trivial
    simp only [hfile]
    cases fate with
    | fails => simpa using ht.ends
    | works | tears | late => exact hdone
  | serve =>
    dsimp only
    rw [List.append_nil]
    exact ht.at nofun trivial
  | reread =>
    dsimp only
    split_ifs with hr
    · exact ht.tells nofun (ht.recordedPid hr) (fun _ => rfl) (List.mem_append_right _ (by simp))
    · simpa using ht.ends
  | remove =>
    rw [hs] at hknows
    have hdone : Told (log ++ [.removed pid job.id])
        ((h.setDir (h.dir.erase (pidFile job.id))).put pid none) := by
      refine ht.concat rfl hknows ?_ nofun
      rw [holderAfter_removed]
      exact ht.keeps.remove job.id
    cases fate with
    | fails => simpa using ht.ends
    | works | tears | late => exact hdone

theorem Told.step (ht : Told log h) (act : Act) : Told (log ++ (h.step act).2) (h.step act).1 := by
  cases act with
  | spawn pid program =>
    rw [Host.step]
    split_ifs
    · rw [List.append_nil]
      refine ht.silent rfl (ht.keeps.put fun job hjob => ?_) fun job hjob => ?_
      · rw [program.stage_proc (Option.some.inj hjob)]
        nofun
      · rw [Knows, program.stage_proc (Option.some.inj hjob)]
        trivial
    · simpa using ht
  | die pid =>
    rw [Host.step, List.append_nil]
    exact ht.ends
  | next pid fate =>
    rw [Host.step]
    split
    · exact ht.next ‹_› fate
    · simpa using ht

theorem told_run (acts : List Act) :
    Told (Machine.outputs Host.step .start acts) (Machine.run Host.step .start acts) := by
  have hstep : ∀ log h act, Told log h → Told (log ++ (Host.step h act).2) (Host.step h act).1 :=
    fun _ _ act ht => ht.step act
  have hrun := Machine.history_invariant hstep Told.start acts
  rwa [List.nil_append] at hrun

/-- In every order of the steps of any number of processes: the file of a client holds, whole, the
pid of the one that recorded itself last, unless that was removed since, and it is what is found
there; a process is killed only by another one that has found its pid there and then seen a probe of
that pid; and a record is removed only by one that has found itself in it. -/
theorem killed_recorded (acts : List Act) :
    let s := Machine.run Host.step .start acts
    let log := Machine.outputs Host.step .start acts
    (∀ id, s.dir[pidFile id]? = (holder log id).map pidBytes) ∧
    (∀ before pid id old after, log = before ++ .found pid id old :: after →
      holder before id = some old) ∧
    (∀ before pid old after, log = before ++ .killed pid old :: after →
      old ≠ pid ∧ ∃ id, [.found pid id old, .saw pid old].Sublist before) ∧
    ∀ before pid id after, log = before ++ .removed pid id :: after →
      .found pid id pid ∈ before := by
  have ht := told_run acts
  exact ⟨ht.keeps.file, fun _ _ _ _ _ h => ht.meant _ _ _ h, fun _ _ _ _ h => ht.meant _ _ _ h,
    fun _ _ _ _ h => ht.meant _ _ _ h⟩

end Facts

end MultiAi.Instance
