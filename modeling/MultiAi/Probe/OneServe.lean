import MultiAi.Library.Budget
import MultiAi.Probe.Instance

/-! # One serve runs at a time

Where no two serves of a client start side by side, the record of the client names the only one that
runs, however the other processes of the host interleave with them.
-/

namespace MultiAi.Instance

open Spool (Dir)

section Single

/-- The steps that end the recorded process. -/
def Stage.stopping : Stage → Bool
  | .read | .check _ | .kill _ | .wait _ => true
  | _ => false

/-- A serve that has looked for the one before it. -/
def Stage.starting : Stage → Bool
  | .check _ | .kill _ | .wait _ | .write | .rename => true
  | _ => false

/-- A serve that has recorded itself. -/
def Stage.running : Stage → Bool
  | .serve | .reread | .remove => true
  | _ => false

/-- The process that is to be stopped. -/
def Stage.against : Stage → Option UInt32
  | .check old | .kill old | .wait old => some old
  | _ => none

def Proc.starting : Proc → Bool
  | .probe job => job.stage.starting
  | .other _ => false

variable (h : Host) (id : ClientId) (pid : UInt32)

def Serves : Prop := ∃ stage, h.procs pid = some (.probe ⟨id, false, stage⟩) ∧ stage.running

def Starts : Prop := ∃ stage, h.procs pid = some (.probe ⟨id, false, stage⟩) ∧ stage.starting

/-- No two serves of a client start at the same time, what a serve looks at can be read, and it does
not go on while the one that it is to stop still runs. -/
def Calm : Act → Prop
  | .next pid fate =>
    match h.procs pid with
    | some (.probe ⟨id, false, .read⟩) => fate ≠ .fails ∧ ∀ pid', ¬Starts h id pid'
    | some (.probe ⟨id, false, .check old⟩) => fate = .fails → ¬Serves h id old
    | some (.probe ⟨id, false, .wait old⟩) => fate = .fails ∨ fate = .late → ¬Serves h id old
    | _ => True
  | _ => True

/-- A serve that runs is recorded, and one that starts goes for it. -/
structure Single (who : ClientId → Option UInt32) : Prop where
  serves : ∀ id pid, Serves h id pid → who id = some pid
  one : ∀ id pid pid', Starts h id pid → Starts h id pid' → pid = pid'
  left : ∀ id pid stage, h.procs pid = some (.probe ⟨id, false, stage⟩) → stage.starting →
    ∀ pid', Serves h id pid' → stage.against = some pid'
  stops : ∀ id pid stage, h.procs pid = some (.probe ⟨id, true, stage⟩) → stage.stopping

variable {h id pid} {who : ClientId → Option UInt32} {pid' old : UInt32} {proc : Option Proc}
  {stage stage' : Stage} {fate : Fate}

theorem Single.start : Single .start fun _ => none where
  serves id pid hs := by
    obtain ⟨stage, hp, -⟩ := hs
    cases hp
  one id pid pid' hs := by
    obtain ⟨stage, hp, -⟩ := hs
    cases hp
  left id pid stage hp := by cases hp
  stops id pid stage hp := by cases hp

theorem Single.setDir (hs : Single h who) (dir : Dir) : Single (h.setDir dir) who :=
  ⟨hs.serves, hs.one, hs.left, hs.stops⟩

theorem serves_put : Serves (h.put pid proc) id pid' ↔
    if pid' = pid then ∃ stage, proc = some (.probe ⟨id, false, stage⟩) ∧ stage.running
    else Serves h id pid' := by
  unfold Serves
  split_ifs with hpid
  · rw [hpid, Host.put_self]
  · rw [Host.put_ne _ hpid]

theorem starts_put : Starts (h.put pid proc) id pid' ↔
    if pid' = pid then ∃ stage, proc = some (.probe ⟨id, false, stage⟩) ∧ stage.starting
    else Starts h id pid' := by
  unfold Starts
  split_ifs with hpid
  · rw [hpid, Host.put_self]
  · rw [Host.put_ne _ hpid]

/-- A process that is gone or goes on, and does not start. -/
theorem Single.goes (hs : Single h who)
    (hserve : ∀ id stage, proc = some (.probe ⟨id, false, stage⟩) →
      stage.starting = false ∧ (stage.running → Serves h id pid))
    (hstop : ∀ id stage, proc = some (.probe ⟨id, true, stage⟩) → stage.stopping) :
    Single (h.put pid proc) who := by
  have hserves : ∀ id pid', Serves (h.put pid proc) id pid' → Serves h id pid' := by
    intro id pid' hp
    rw [serves_put] at hp
    split_ifs at hp with hpid
    · obtain ⟨stage, hp, hr⟩ := hp
      exact hpid ▸ (hserve id stage hp).2 hr
    · exact hp
  have hstarts : ∀ id pid' stage, (h.put pid proc).procs pid' = some (.probe ⟨id, false, stage⟩) →
      stage.starting → h.procs pid' = some (.probe ⟨id, false, stage⟩) := by
    intro id pid' stage hp hst
    by_cases hpid : pid' = pid
    · rw [hpid, Host.put_self] at hp
      rw [(hserve id stage hp).1] at hst
      cases hst
    · rwa [Host.put_ne _ hpid] at hp
  constructor
  · exact fun id pid' hp => hs.serves id pid' (hserves id pid' hp)
  · rintro id p p' ⟨stage, hp, hst⟩ ⟨stage', hp', hst'⟩
    exact hs.one id p p' ⟨stage, hstarts _ _ _ hp hst, hst⟩ ⟨stage', hstarts _ _ _ hp' hst', hst'⟩
  · exact fun id p stage hp hst p' hp' =>
      hs.left id p stage (hstarts _ _ _ hp hst) hst p' (hserves _ _ hp')
  · intro id p stage hp
    by_cases hpid : p = pid
    · rw [hpid, Host.put_self] at hp
      exact hstop id stage hp
    · rw [Host.put_ne _ hpid] at hp
      exact hs.stops id p stage hp

theorem Single.ends (hs : Single h who) : Single (h.put pid none) who := hs.goes nofun nofun

/-- A serve that starts, or goes on with it. -/
theorem Single.starts (hs : Single h who) (hst : stage.starting = true)
    (hone : ∀ pid', Starts h id pid' → pid' = pid)
    (hleft : ∀ pid', pid' ≠ pid → Serves h id pid' → stage.against = some pid') :
    Single (h.put pid (some (.probe ⟨id, false, stage⟩))) who := by
  have hno : stage.running ≠ true := by
    cases stage with
    | serve | reread | remove => cases hst
    | read | check | kill | wait | write | rename => nofun
  have hserves : ∀ id' pid', Serves (h.put pid (some (.probe ⟨id, false, stage⟩))) id' pid' →
      pid' ≠ pid ∧ Serves h id' pid' := by
    intro id' pid' hp
    rw [serves_put] at hp
    split_ifs at hp with hpid
    · obtain ⟨_, he, hr⟩ := hp
      cases he
      exact absurd hr hno
    · exact ⟨hpid, hp⟩
  have hstarts : ∀ id' pid', Starts (h.put pid (some (.probe ⟨id, false, stage⟩))) id' pid' →
      id' = id ∧ pid' = pid ∨ pid' ≠ pid ∧ Starts h id' pid' := by
    intro id' pid' hp
    rw [starts_put] at hp
    split_ifs at hp with hpid
    · obtain ⟨_, he, -⟩ := hp
      cases he
      exact .inl ⟨rfl, hpid⟩
    · exact .inr ⟨hpid, hp⟩
  constructor
  · exact fun id' pid' hp => hs.serves id' pid' (hserves id' pid' hp).2
  · intro id' p p' hp hp'
    rcases hstarts _ _ hp with ⟨rfl, rfl⟩ | ⟨-, hold⟩ <;>
      rcases hstarts _ _ hp' with ⟨hid, rfl⟩ | ⟨-, hold'⟩
    · rfl
    · exact (hone p' hold').symm
    · exact hone p (hid ▸ hold)
    · exact hs.one id' p p' hold hold'
  · intro id' p stage' hp hst' p' hp'
    obtain ⟨hne', hp'⟩ := hserves _ _ hp'
    by_cases hpid : p = pid
    · rw [hpid, Host.put_self] at hp
      cases hp
      exact hleft p' hne' hp'
    · rw [Host.put_ne _ hpid] at hp
      exact hs.left id' p stage' hp hst' p' hp'
  · intro id' p stage' hp
    by_cases hpid : p = pid
    · rw [hpid, Host.put_self] at hp
      cases hp
    · rw [Host.put_ne _ hpid] at hp
      exact hs.stops id' p stage' hp

/-- A serve records itself: no other one is left. -/
theorem Single.records (hs : Single h who)
    (hp : h.procs pid = some (.probe ⟨id, false, .rename⟩)) :
    Single (h.put pid (some (.probe ⟨id, false, .serve⟩))) (Function.update who id (some pid)) := by
  have hnone : ∀ pid', ¬Serves h id pid' := fun pid' hserve =>
    nomatch hs.left id pid .rename hp rfl pid' hserve
  have hstarts : ∀ id' p stage,
      (h.put pid (some (.probe ⟨id, false, .serve⟩))).procs p = some (.probe ⟨id', false, stage⟩) →
        stage.starting → p ≠ pid ∧ h.procs p = some (.probe ⟨id', false, stage⟩) := by
    intro id' p stage hp hst
    by_cases hpid : p = pid
    · rw [hpid, Host.put_self] at hp
      cases hp
      cases hst
    · rw [Host.put_ne _ hpid] at hp
      exact ⟨hpid, hp⟩
  constructor
  · intro id' pid' hserve
    rw [serves_put] at hserve
    split_ifs at hserve with hpid
    · obtain ⟨_, he, -⟩ := hserve
      cases he
      rw [Function.update_self, hpid]
    · rw [Function.update_of_ne, hs.serves id' pid' hserve]
      rintro rfl
      exact hnone pid' hserve
  · rintro id' p p' ⟨stage, hp, hst⟩ ⟨stage', hp', hst'⟩
    exact hs.one id' p p' ⟨stage, (hstarts _ _ _ hp hst).2, hst⟩
      ⟨stage', (hstarts _ _ _ hp' hst').2, hst'⟩
  · intro id' p stage hp' hst p' hserve
    obtain ⟨hne, hp'⟩ := hstarts _ _ _ hp' hst
    rw [serves_put] at hserve
    split_ifs at hserve with hpid
    · -- no other one starts for this client
      obtain ⟨_, he, -⟩ := hserve
      cases he
      exact absurd (hs.one id p pid ⟨stage, hp', hst⟩ ⟨.rename, hp, rfl⟩) hne
    · exact hs.left id' p stage hp' hst p' hserve
  · intro id' p stage hp'
    by_cases hpid : p = pid
    · rw [hpid, Host.put_self] at hp'
      cases hp'
    · rw [Host.put_ne _ hpid] at hp'
      exact hs.stops id' p stage hp'

/-- A serve takes its record away. -/
theorem Single.removes (hs : Single h who) (hp : Serves h id pid) :
    Single (h.put pid none) (Function.update who id none) := by
  have hends : Single (h.put pid none) who := hs.ends
  refine ⟨fun id' pid' hserve => ?_, hends.one, hends.left, hends.stops⟩
  have hwho := hends.serves id' pid' hserve
  rw [Function.update_of_ne, hwho]
  rintro rfl
  rw [hs.serves id' pid hp] at hwho
  obtain rfl := Option.some.inj hwho
  rw [serves_put, if_pos rfl] at hserve
  obtain ⟨_, he, -⟩ := hserve
  cases he

/-- A probe that is gone is not one that serves. -/
theorem not_serves (hb : h.isProbe old fate = false) (hf : fate ≠ .fails) : ¬Serves h id old := by
  rintro ⟨stage, hp, -⟩
  have hprobe : h.isProbe old fate = true := by
    rw [Host.isProbe.eq_2 _ _ _ hf, hp]
    rfl
  rw [hprobe] at hb
  cases hb

/-- A serve for which no other one is left starts to record itself. -/
theorem Single.writes (hs : Single h who)
    (hone : ∀ pid', Starts h id pid' → pid' = pid) (hnone : ∀ pid', ¬Serves h id pid') :
    Single (h.put pid (Job.stopped ⟨id, false, stage⟩)) who :=
  hs.starts rfl hone fun pid' _ hp => absurd hp (hnone pid')

/-- Where the one that is to be stopped is gone, no other one is left. -/
theorem Single.alone (hs : Single h who) (hp : h.procs pid = some (.probe ⟨id, false, stage⟩))
    (hst : stage.starting = true) (ha : stage.against = some old) (hgone : ¬Serves h id old) :
    Single (h.put pid (Job.stopped ⟨id, false, stage⟩)) who := by
  refine hs.writes (fun pid' hp' => hs.one id pid' pid hp' ⟨stage, hp, hst⟩) fun pid' hp' => ?_
  obtain rfl := Option.some.inj (ha.symm.trans (hs.left id pid stage hp hst pid' hp'))
  exact hgone hp'

/-- A serve goes on against the same process. -/
theorem Single.against (hs : Single h who) (hp : h.procs pid = some (.probe ⟨id, false, stage⟩))
    (hst : stage.starting = true) (hst' : stage'.starting = true)
    (ha : stage'.against = stage.against) :
    Single (h.put pid (Job.at ⟨id, false, stage⟩ stage')) who :=
  hs.starts hst' (fun pid' hp' => hs.one id pid' pid hp' ⟨stage, hp, hst⟩)
    fun pid' _ hp' => ha.trans (hs.left id pid stage hp hst pid' hp')

/-- A serve goes on running. -/
theorem Single.runs (hs : Single h who) (hp : h.procs pid = some (.probe ⟨id, false, stage⟩))
    (hr : stage.running = true) (hr' : stage'.running = true) :
    Single (h.put pid (Job.at ⟨id, false, stage⟩ stage')) who := by
  refine hs.goes ?_ nofun
  rintro id' stage'' ⟨⟩
  refine ⟨?_, fun _ => ⟨stage, hp, hr⟩⟩
  cases stage' <;> cases hr' <;> rfl

variable {log : List Fact}

/-- A `stop` takes one of its steps. -/
theorem Single.stop (hs : Single h (holder log))
    (hp : h.procs pid = some (.probe ⟨id, true, stage⟩)) :
    Single (h.next pid ⟨id, true, stage⟩ fate).1
      (holderAfter (holder log) (h.next pid ⟨id, true, stage⟩ fate).2) := by
  have hat : ∀ stage' : Stage, stage'.stopping = true →
      Single (h.put pid (Job.at ⟨id, true, stage⟩ stage')) (holder log) := by
    intro stage' hst
    refine hs.goes nofun ?_
    rintro id' stage'' ⟨⟩
    exact hst
  have hsilent : ∀ f : Fact, (∀ id, f.record id = none) →
      holderAfter (holder log) [f] = holder log := fun f => holderAfter_of_silent _
  have hstop := hs.stops id pid stage hp
  unfold Host.next
  cases stage with
  | read =>
    dsimp only
    cases h.recordedPid id fate with
    | none => exact hs.ends
    | some old =>
      dsimp only
      rw [hsilent _ fun _ => rfl]
      split_ifs
      · exact hs.ends
      · exact hat _ rfl
  | check old =>
    dsimp only
    split_ifs
    · rw [hsilent _ fun _ => rfl]
      exact hat _ rfl
    · exact hs.ends
  | kill old =>
    dsimp only
    rw [hsilent _ fun _ => rfl]
    exact hat _ rfl
  | wait old =>
    dsimp only
    split_ifs
    · exact hat _ rfl
    · exact hs.ends
  | write | rename | serve | reread | remove => cases hstop

theorem Single.next (hs : Single h (holder log)) (ht : Told log h)
    (hp : h.procs pid = some (.probe ⟨id, false, stage⟩)) (hc : Calm h (.next pid fate)) :
    Single (h.next pid ⟨id, false, stage⟩ fate).1
      (holderAfter (holder log) (h.next pid ⟨id, false, stage⟩ fate).2) := by
  have hsilent : ∀ f : Fact, (∀ id, f.record id = none) →
      holderAfter (holder log) [f] = holder log := fun f => holderAfter_of_silent _
  simp only [Calm, hp] at hc
  unfold Host.next
  cases stage with
  | read =>
    obtain ⟨hfate, hone⟩ := hc
    have hread : h.recordedPid id fate = _ := ht.keeps.recordedPid id
    rw [if_neg hfate] at hread
    have hself : ¬Serves h id pid := by
      rintro ⟨_, hp', hr⟩
      cases hp.symm.trans hp'
      cases hr
    dsimp only
    cases hr : h.recordedPid id fate with
    | none =>
      refine hs.writes (fun pid' hp' => absurd hp' (hone pid')) fun pid' hp' => ?_
      rw [hread, hs.serves id pid' hp'] at hr
      cases hr
    | some old =>
      have hold : ∀ pid', Serves h id pid' → pid' = old := fun pid' hp' =>
        Option.some.inj ((hs.serves id pid' hp').symm.trans (hread.symm.trans hr))
      dsimp only
      rw [hsilent _ fun _ => rfl]
      split_ifs with hpid
      · refine hs.writes (fun pid' hp' => absurd hp' (hone pid')) fun pid' hp' => ?_
        exact hself (hpid ▸ hold pid' hp' ▸ hp')
      · exact hs.starts rfl (fun pid' hp' => absurd hp' (hone pid'))
          fun pid' _ hp' => congrArg some (hold pid' hp').symm
  | check old =>
    dsimp only
    split_ifs with hb
    · rw [hsilent _ fun _ => rfl]
      exact hs.against hp rfl rfl rfl
    · refine hs.alone hp rfl rfl ?_
      by_cases hf : fate = .fails
      · exact hc hf
      · exact not_serves (by simpa using hb) hf
  | kill old =>
    dsimp only
    rw [hsilent _ fun _ => rfl]
    exact hs.against hp rfl rfl rfl
  | wait old =>
    dsimp only
    split_ifs with hb
    · exact hs.against hp rfl rfl rfl
    · refine hs.alone hp rfl rfl ?_
      by_cases hf : fate = .fails ∨ fate = .late
      · exact hc hf
      · rw [not_or] at hf
        exact not_serves (by simpa [hf.2] using hb) hf.1
  | write =>
    have hnone : ∀ left : List UInt8,
        Single ((h.setDir (h.dir.insert (tmpFile id pid) left)).put pid none) (holder log) :=
      fun left => (hs.setDir _).ends
    have hwhole : Single ((h.setDir (h.dir.insert (tmpFile id pid) (pidBytes pid))).put pid
        (Job.at ⟨id, false, .write⟩ .rename)) (holder log) :=
      (hs.setDir _).against hp rfl rfl rfl
    cases fate with
    | fails => exact hs.ends
    | tears left => exact hnone left
    | works | late => exact hwhole
  | rename =>
    obtain ⟨hfile, -⟩ := ht.keeps.rename hp rfl
    simp only [hfile]
    cases fate with
    | fails => exact hs.ends
    | works | tears | late =>
      dsimp only
      rw [holderAfter_recorded]
      exact (hs.setDir _).records hp
  | serve => exact hs.runs hp rfl rfl
  | reread =>
    dsimp only
    split_ifs
    · rw [hsilent _ fun _ => rfl]
      exact hs.runs hp rfl rfl
    · exact hs.ends
  | remove =>
    cases fate with
    | fails => exact hs.ends
    | works | tears | late =>
      dsimp only
      rw [holderAfter_removed]
      exact (hs.setDir _).removes ⟨_, hp, rfl⟩

theorem Single.step (hs : Single h (holder log)) (ht : Told log h) {act : Act} (hc : Calm h act) :
    Single (h.step act).1 (holderAfter (holder log) (h.step act).2) := by
  cases act with
  | spawn pid program =>
    rw [Host.step]
    split_ifs
    · refine hs.goes (fun id stage hp => ?_) fun id stage hp => ?_
      · have hread : stage = .read := program.stage_proc (Option.some.inj hp)
        rw [hread]
        exact ⟨rfl, fun hrun => by cases hrun⟩
      · have hread : stage = .read := program.stage_proc (Option.some.inj hp)
        rw [hread]
        rfl
    · exact hs
  | die pid => exact hs.ends
  | next pid fate =>
    rw [Host.step]
    split
    · next job hp =>
      obtain ⟨id, stops, stage⟩ := job
      cases stops with
      | true => exact hs.stop hp
      | false => exact hs.next ht hp hc
    · exact hs

/-- Where no two serves of a client start at the same time and each waits for the one that it stops,
one at a time runs for a client, and is the one that is recorded; and none runs while one records
itself. Other processes, those that stop a serve and serves that are over, are not held up. -/
theorem one_serve (acts : List Act) (hcalm : Machine.Along Host.step Calm .start acts) :
    let s := Machine.run Host.step .start acts
    (∀ id pid, Serves s id pid → s.dir[pidFile id]? = some (pidBytes pid) ∧
      ∀ pid', Serves s id pid' → pid' = pid) ∧
    ∀ id pid, s.procs pid = some (.probe ⟨id, false, .write⟩) ∨
      s.procs pid = some (.probe ⟨id, false, .rename⟩) → ∀ pid', ¬Serves s id pid' := by
  intro s
  obtain ⟨log, ht, hs⟩ : ∃ log, Told log s ∧ Single s (holder log) := by
    refine hcalm.run (P := fun h => ∃ log, Told log h ∧ Single h (holder log)) ?_
      ⟨[], .start, .start⟩
    rintro h act ⟨log, ht, hs⟩ hc
    refine ⟨log ++ (h.step act).2, ht.step act, ?_⟩
    rw [holder_append]
    exact hs.step ht hc
  refine ⟨fun id pid hp => ⟨?_, fun pid' hp' => ?_⟩, ?_⟩
  · rw [← FileKey.name, ht.keeps.file id, hs.serves id pid hp]
    rfl
  · exact Option.some.inj ((hs.serves id pid' hp').symm.trans (hs.serves id pid hp))
  · rintro id pid (hp | hp) pid' hp'
    · cases hs.left id pid _ hp rfl pid' hp'
    · cases hs.left id pid _ hp rfl pid' hp'

/-- No process that was acted on starts. -/
theorem not_starts_run {acts : List Act} {pids : List UInt32}
    (hacts : ∀ act ∈ acts, act.pid ∈ pids)
    (hpids : ∀ pid ∈ pids,
      ((Machine.run Host.step .start acts).procs pid).any Proc.starting = false) :
    ¬Starts (Machine.run Host.step .start acts) id pid := by
  rintro ⟨stage, hp, hst⟩
  by_cases hpid : pid ∈ pids
  · have hidle := hpids pid hpid
    rw [hp, Option.any_some, Proc.starting, hst] at hidle
    cases hidle
  · have hne : ∀ act ∈ acts, act.pid ≠ pid := by
      rintro act hact rfl
      exact hpid (hacts act hact)
    cases hp.symm.trans (procs_run .start hne)

theorem calm_works {job : Job} (hp : h.procs pid = some (.probe job)) (hs : job.stage ≠ .read) :
    Calm h (.next pid .works) := by
  obtain ⟨id, stops, stage⟩ := job
  have hworks : Fate.works ≠ .fails ∧ Fate.works ≠ .late := by decide
  rw [Calm, hp]
  cases stops with
  | true => cases stage <;> trivial
  | false =>
    cases stage with
    | read => exact absurd rfl hs
    | check old => exact fun hf => absurd hf hworks.1
    | wait old => exact fun hf => absurd hf (not_or.mpr hworks)
    | kill | write | rename | serve | reread | remove => trivial

/-- One serve takes the place of another. -/
def takeover : List Act :=
  [.spawn 10 (.serve "c"), .next 10 .works, .next 10 .works, .next 10 .works,
    .spawn 11 (.serve "c"), .next 11 .works, .next 11 .works, .next 11 .works, .next 11 .works,
    .die 10, .next 11 .works, .next 11 .works, .next 11 .works]

theorem one_serve_takeover :
    let s := Machine.run Host.step .start takeover
    Serves s (clientId "c") 11 ∧ s.dir[pidFile (clientId "c")]? = some (pidBytes 11) ∧
      ∀ pid, Serves s (clientId "c") pid → pid = 11 := by
  intro s
  have hidle : ∀ (n : ℕ) (pid : UInt32), n = 1 ∨ n = 5 →
      ¬Starts (Machine.run Host.step .start (takeover.take n)) (clientId "c") pid := by
    rintro n pid (rfl | rfl)
    · exact @not_starts_run _ _ _ [10] (by decide) (List.forall_mem_singleton.mpr
        (by decide +kernel))
    · exact @not_starts_run _ _ _ [10, 11] (by decide) (List.forall_mem_cons.mpr
        ⟨by decide +kernel, List.forall_mem_singleton.mpr (by decide +kernel)⟩)
  have hworks : ∀ (n : ℕ) (pid : UInt32) (stage : Stage), stage ≠ .read →
      (Machine.run Host.step .start (takeover.take n)).procs pid =
        some (.probe ⟨clientId "c", false, stage⟩) →
      Calm (Machine.run Host.step .start (takeover.take n)) (.next pid .works) :=
    fun n pid stage hs hp => calm_works hp hs
  have hcalm : Machine.Along Host.step Calm .start takeover := by
    refine ⟨trivial, ⟨nofun, (hidle 1 · (.inl rfl))⟩, hworks 2 10 .write nofun ?_,
      hworks 3 10 .rename nofun ?_, trivial, ⟨nofun, (hidle 5 · (.inr rfl))⟩,
      hworks 6 11 (.check 10) nofun ?_, hworks 7 11 (.kill 10) nofun ?_,
      hworks 8 11 (.wait 10) nofun ?_, trivial, hworks 10 11 (.wait 10) nofun ?_,
      hworks 11 11 .write nofun ?_, hworks 12 11 .rename nofun ?_, trivial⟩ <;> decide +kernel
  have hserves : Serves s (clientId "c") 11 := ⟨.serve, by decide +kernel, rfl⟩
  exact ⟨hserves, (one_serve takeover hcalm).1 _ _ hserves⟩

end Single

end MultiAi.Instance
