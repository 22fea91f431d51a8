import MultiAi.Host.Grammar

/-! # What becomes of a command

A message for the probe is written to the link that is up when its command is taken, or it is
reported as dropped: one of the two, once, and in the order in which the commands were sent.
-/

namespace MultiAi

open Machine

def HostEffect.command : HostEffect → Option (Option HostCommand)
  | .took c => some c
  | _ => none

/-- The message an effect settles: it was written, or it is reported as dropped. -/
def HostEffect.settles : HostEffect → Option AppMsg
  | .wrote m => some m
  | .emit _ (.dropped m) => some m
  | _ => none

def HostEffect.writes : HostEffect → Option AppMsg
  | .wrote m => some m
  | _ => none

def HostCommand.message : HostCommand → Option AppMsg
  | .send m => some m
  | _ => none

namespace Host

/-- What was taken from the channel; `none` once it is closed and empty. -/
def commands (log : List HostEffect) : List (Option HostCommand) := log.filterMap HostEffect.command

def taken (log : List HostEffect) : List HostCommand := (commands log).filterMap id

def settled (log : List HostEffect) : List AppMsg := log.filterMap HostEffect.settles

def written (log : List HostEffect) : List AppMsg := log.filterMap HostEffect.writes

def sends (cs : List HostCommand) : List AppMsg := cs.filterMap HostCommand.message

/-- The message that is being written. -/
def inFlight : Phase → List AppMsg
  | .sending _ m => [m]
  | _ => []

def Input.queued : Input → Option HostCommand
  | .queue c => some c
  | _ => none

def Input.closes : Input → Bool
  | .close => true
  | _ => false

/-- The commands that were sent while the channel was open. -/
def sent (inputs : List Input) : List HostCommand :=
  (inputs.takeWhile (!Input.closes ·)).filterMap Input.queued

variable {cfg : HostConfig} {p p' : Phase} {out log : List HostEffect} (s : Host)

section Queue

theorem commands_append (log out : List HostEffect) :
    commands (log ++ out) = commands log ++ commands out := List.filterMap_append

theorem commands_release (p : Phase) : commands (release p) = [] := by
  cases p with
  | waiting pause => cases pause <;> rfl
  | _ => rfl

theorem commands_takeCommand (c : Option HostCommand) : commands (s.takeCommand c).2 = [] := by
  have hfinish : commands (release s.phase ++ [.ends]) = [] := by
    rw [commands_append, commands_release]
    rfl
  have hretry : commands (release s.phase ++
      [.emit s.cfg.id (.probe .connecting), .opens s.cfg]) = [] := by
    rw [commands_append, commands_release]
    rfl
  unfold takeCommand
  split <;> rcases c with _ | (_ | _ | _) <;> first | exact hfinish | exact hretry | rfl

theorem commands_afterHello (o : Opened) (r : Except LinkError HelloInfo) :
    commands (s.afterHello o r).2 = [] := by
  cases r with
  | error e => cases e <;> rfl
  | ok hello =>
    simp only [afterHello]
    split_ifs <;> rfl

/-- A step takes the first command of the channel, or finds it closed. -/
theorem commands_step (i : Input) : commands (s.step i).2 =
    match i with
    | .command =>
      if takesCommands s.phase then
        match s.cmds with
        | c :: _ => [some c]
        | [] => if s.closed then [none] else []
      else []
    | _ => [] := by
  cases i with
  | queue c => rfl
  | close => rfl
  | passes ms => rfl
  | command =>
    have htook : ∀ c out, commands out = [] → commands (.took c :: out) = [c] := by
      intro c out h
      rw [← List.singleton_append, commands_append, h]
      rfl
    by_cases ht : takesCommands s.phase
    · cases hc : s.cmds with
      | cons c cmds =>
        simp only [step, recv, ht, hc, if_true]
        exact htook _ _ (commands_takeCommand { s with cmds := cmds } (some c))
      | nil =>
        by_cases hclosed : s.closed
        · simp only [step, recv, ht, hc, hclosed, if_true]
          exact htook _ _ (commands_takeCommand s none)
        · simp [step, recv, ht, hc, hclosed, commands]
    · simp [step, recv, ht, commands]
  | opened r =>
    simp only [step]
    split
    · rcases r with (_ | _) | _ <;> rfl
    · rfl
  | greeted r =>
    simp only [step]
    split
    · exact commands_afterHello s _ r
    · rfl
  | received r =>
    simp only [step]
    split
    · cases r <;> rfl
    · rfl
  | sent r =>
    simp only [step, afterSend]
    split <;> rfl
  | explained tail =>
    simp only [step]
    split <;> rfl
  | elapsed =>
    simp only [step]
    split
    · split_ifs
      · rename_i hp _
        simp only [afterWait, hp]
        rfl
      · rfl
    · rfl

end Queue

section Pairing

/-- Every message that is taken is settled by the very next effect, and nothing else settles
one; the list is what is taken and not settled yet. -/
inductive Paired : List HostEffect → List AppMsg → Prop
  | nil : Paired [] []
  | other {log : List HostEffect} {x : HostEffect} : Paired log [] → x.settles = none →
      (∀ m, x ≠ .took (some (.send m))) → Paired (log ++ [x]) []
  | taking {log : List HostEffect} {m : AppMsg} : Paired log [] →
      Paired (log ++ [.took (some (.send m))]) [m]
  | settling {log : List HostEffect} {x : HostEffect} {m : AppMsg} : Paired log [m] →
      x.settles = some m → Paired (log ++ [x]) []

variable {flight : List AppMsg}

theorem Paired.others (h : Paired log []) {out : List HostEffect}
    (hout : ∀ x ∈ out, x.settles = none ∧ ∀ m, x ≠ .took (some (.send m))) :
    Paired (log ++ out) [] := by
  induction out generalizing log with
  | nil => rwa [List.append_nil]
  | cons x out ih =>
    obtain ⟨⟨hs, ht⟩, hout⟩ := List.forall_mem_cons.mp hout
    rw [← List.singleton_append, ← List.append_assoc]
    exact ih (h.other hs ht) hout

theorem Paired.moves (h : Paired log (inFlight p)) (hm : Moves cfg p p' out) :
    Paired (log ++ out) (inFlight p') := by
  have hrelease : ∀ p, ∀ x ∈ release p, x.settles = none ∧ ∀ m, x ≠ .took (some (.send m)) := by
    rintro p x hx
    rcases mem_release hx with rfl | rfl <;> exact ⟨rfl, nofun⟩
  have hidle : ∀ p, takesCommands p → inFlight p = [] := by
    intro p hp
    cases p <;> first | rfl | cases hp
  cases hm with
  | rests => rwa [List.append_nil]
  | ignores ht =>
    rw [hidle p ht] at h ⊢
    exact h.others (by simp [HostEffect.settles])
  | @drops _ m ht _ =>
    rw [hidle p ht] at h ⊢
    rw [← List.singleton_append, ← List.append_assoc]
    exact h.taking.settling rfl
  | @ends _ c hc ht =>
    rw [hidle p ht] at h
    refine h.others fun x hx => ?_
    rcases List.mem_cons.mp hx with rfl | hx
    · rcases hc with rfl | rfl <;> simp [HostEffect.settles]
    · rcases List.mem_append.mp hx with hx | hx
      · exact hrelease p x hx
      · rw [List.mem_singleton.mp hx]
        simp [HostEffect.settles]
  | retries =>
    refine Paired.others h fun x hx => ?_
    rcases List.mem_cons.mp hx with rfl | hx
    · simp [HostEffect.settles]
    · rcases List.mem_append.mp hx with hx | hx
      · exact hrelease _ x hx
      · have hnew : ∀ x ∈ [HostEffect.emit cfg.id (.probe .connecting), .opens cfg],
            x.settles = none ∧ ∀ m, x ≠ .took (some (.send m)) := by simp [HostEffect.settles]
        exact hnew x hx
  | @greets o hello upSince =>
    refine Paired.others h fun x hx => ?_
    rcases mem_greeting hx with rfl | rfl | rfl | rfl <;> exact ⟨rfl, nofun⟩
  | relays hp =>
    rcases hp with rfl | ⟨offset, rfl⟩ <;> exact Paired.others h (by simp [HostEffect.settles])
  | takes => exact Paired.taking h
  | fails hp =>
    rw [List.append_nil]
    rcases hp with rfl | ⟨offset, rfl⟩ <;> exact h
  | writes => exact Paired.settling h rfl
  | loses => exact Paired.settling h rfl
  | failsHello => rwa [List.append_nil]
  | _ => exact Paired.others h (by simp [HostEffect.settles])

theorem paired (cfg : HostConfig) (inputs : List Input) :
    Paired (history cfg inputs) (inFlight (run cfg inputs).phase) :=
  history_rule cfg (P := fun log p => Paired log (inFlight p))
    (Paired.nil.others (by simp [HostEffect.settles])) (fun _ _ _ _ h hm => Paired.moves h hm) inputs

theorem taken_append (log out : List HostEffect) : taken (log ++ out) = taken log ++ taken out := by
  rw [taken, commands_append, List.filterMap_append, taken, taken]

theorem settled_append (log out : List HostEffect) :
    settled (log ++ out) = settled log ++ settled out := List.filterMap_append

/-- What is taken is settled in its order, but for what is in flight. -/
theorem Paired.balance (h : Paired log flight) : sends (taken log) = settled log ++ flight := by
  have hsends : ∀ a b, sends (a ++ b) = sends a ++ sends b := fun _ _ => List.filterMap_append
  induction h with
  | nil => rfl
  | @other log x _ hs ht ih =>
    have hnone : sends (taken [x]) = [] ∧ settled [x] = [] := by
      refine ⟨?_, by simp [settled, hs]⟩
      cases x with
      | took c => rcases c with _ | (_ | m | _) <;> first | rfl | exact absurd rfl (ht m)
      | _ => rfl
    rw [taken_append, settled_append, hsends, ih, hnone.1, hnone.2, List.append_nil,
      List.append_nil]
  | @taking log m _ ih =>
    have hone : sends (taken [.took (some (.send m))]) = [m] ∧
      settled [.took (some (.send m))] = [] := ⟨rfl, rfl⟩
    rw [taken_append, settled_append, hsends, ih, hone.1, hone.2, List.append_nil]
  | @settling log x m _ hs ih =>
    have hone : sends (taken [x]) = [] ∧ settled [x] = [m] := by
      refine ⟨?_, by simp [Host.settled, hs]⟩
      cases x <;> first | rfl | cases hs
    rw [taken_append, settled_append, hsends, ih, hone.1, hone.2, List.append_nil]

/-- Only what is in flight is the last effect. -/
theorem Paired.last {m : AppMsg} (h : Paired log [m]) :
    ∃ pre, log = pre ++ [.took (some (.send m))] := by
  cases h
  exact ⟨_, rfl⟩

/-- The effect after a message is taken settles it. -/
theorem Paired.next (h : Paired log flight) {pre post : List HostEffect} {m : AppMsg}
    (heq : log = pre ++ .took (some (.send m)) :: post) :
    post = [] ∧ flight = [m] ∨ ∃ x rest, post = x :: rest ∧ x.settles = some m := by
  induction h generalizing post with
  | nil => simp at heq
  | @other log x hlog hs ht ih =>
    rcases Log.concat_eq_cut.mp heq with ⟨mid, hmid, rfl⟩ | ⟨rfl, hx, -⟩
    · rcases ih hmid with ⟨-, hm⟩ | ⟨y, rest, rfl, hy⟩
      · cases hm
      · exact Or.inr ⟨y, rest ++ [x], rfl, hy⟩
    · exact absurd hx (ht m)
  | @taking log m' hlog ih =>
    rcases Log.concat_eq_cut.mp heq with ⟨mid, hmid, rfl⟩ | ⟨rfl, hx, rfl⟩
    · rcases ih hmid with ⟨-, hm⟩ | ⟨y, rest, rfl, hy⟩
      · cases hm
      · exact Or.inr ⟨y, rest ++ [_], rfl, hy⟩
    · cases hx
      exact Or.inl ⟨rfl, rfl⟩
  | @settling log x m' hlog hs ih =>
    rcases Log.concat_eq_cut.mp heq with ⟨mid, hmid, rfl⟩ | ⟨rfl, rfl, -⟩
    · rcases ih hmid with ⟨rfl, hm⟩ | ⟨y, rest, rfl, hy⟩
      · cases hm
        exact Or.inr ⟨x, [], rfl, hs⟩
      · exact Or.inr ⟨y, rest ++ [x], rfl, hy⟩
    · cases hs

/-- The effect before a message is settled takes it. -/
theorem Paired.prev (h : Paired log flight) {pre post : List HostEffect} {x : HostEffect}
    {m : AppMsg} (heq : log = pre ++ x :: post) (hx : x.settles = some m) :
    ∃ pre', pre = pre' ++ [.took (some (.send m))] := by
  induction h generalizing post with
  | nil => simp at heq
  | @other log y hlog hs ht ih =>
    rcases Log.concat_eq_cut.mp heq with ⟨mid, hmid, -⟩ | ⟨rfl, rfl, -⟩
    · exact ih hmid
    · cases hs.symm.trans hx
  | @taking log m' hlog ih =>
    rcases Log.concat_eq_cut.mp heq with ⟨mid, hmid, -⟩ | ⟨rfl, rfl, -⟩
    · exact ih hmid
    · cases hx
  | @settling log y m' hlog hs ih =>
    rcases Log.concat_eq_cut.mp heq with ⟨mid, hmid, -⟩ | ⟨rfl, rfl, -⟩
    · exact ih hmid
    · obtain rfl := Option.some.inj (hs.symm.trans hx)
      exact hlog.last

end Pairing

section Links

/-- The link is up: the probe was announced, and since then the link was not dropped and no
other state was told. -/
def LinkUp (log : List HostEffect) : Prop :=
  ∃ pre id post, log = pre ++ .emit id (.probe .up) :: post ∧
    ∀ x ∈ post, x ≠ .unlinked ∧ ∀ id state, x ≠ .emit id (.probe state)

/-- The phases in which the probe is served. -/
def Serves : Phase → Prop
  | .serving _ | .acking .. | .sending .. => True
  | _ => False

theorem LinkUp.append (h : LinkUp log)
    (hout : ∀ x ∈ out, x ≠ .unlinked ∧ ∀ id state, x ≠ .emit id (.probe state)) :
    LinkUp (log ++ out) := by
  obtain ⟨pre, id, post, rfl, hpost⟩ := h
  refine ⟨pre, id, post ++ out, by simp, fun x hx => ?_⟩
  rcases List.mem_append.mp hx with hx | hx
  · exact hpost x hx
  · exact hout x hx

/-- What is told while the probe is served. -/
theorem Moves.linkUp (hm : Moves cfg p p' out) (h : Serves p → LinkUp log) :
    Serves p' → LinkUp (log ++ out) := by
  intro hp'
  cases hm with
  | rests =>
    rw [List.append_nil]
    exact h hp'
  | ignores => exact (h hp').append (by simp)
  | drops => exact (h hp').append (by simp)
  | @greets o hello upSince =>
    exact ⟨log ++ ([.emit cfg.id (.hello hello), .emit cfg.id (.hooks o.hooks)] ++
      if o.notes = [] then [] else [.emit cfg.id (.notes o.notes)]), cfg.id, [], by simp,
      fun _ hx => (List.not_mem_nil hx).elim⟩
  | relays => exact (h trivial).append (by simp)
  | takes => exact (h trivial).append (by simp)
  | acks => exact (h trivial).append (by simp)
  | writes => exact (h trivial).append (by simp)
  | _ => exact hp'.elim

/-- A message is written to a link that is up. -/
theorem wrote_linkUp (cfg : HostConfig) (inputs : List Input) {pre post : List HostEffect}
    {m : AppMsg} (h : history cfg inputs = pre ++ .wrote m :: post) :
    LinkUp pre ∧ inUse pre = [.link] := by
  have hrule := history_rule cfg (P := fun log p =>
    (Serves p → LinkUp log) ∧ inUse log = holds p ∧
      ∀ pre m post, log = pre ++ .wrote m :: post → LinkUp pre ∧ inUse pre = [.link]) ?_ ?_ inputs
  · exact hrule.2.2 pre m post h
  · refine ⟨False.elim, rfl, fun pre m post heq => ?_⟩
    have hmem : HostEffect.wrote m ∈
      [HostEffect.emit cfg.id (.probe .connecting), .opens cfg] := heq ▸ by simp
    simp at hmem
  · rintro log p p' out ⟨hup, hheld, hwrote⟩ hm
    refine ⟨hm.linkUp hup, ?_, fun pre m post heq => ?_⟩
    · rw [inUse, List.foldl_append, ← inUse, hheld]
      exact hm.single.2
    · rcases Log.append_eq_cut.mp heq with ⟨mid, hmid, -⟩ | ⟨mid, rfl, hout⟩
      · exact hwrote pre m mid hmid
      · have hmem : HostEffect.wrote m ∈ out := hout ▸ by simp
        have hrelease : ∀ p, HostEffect.wrote m ∉ release p :=
          fun p hr => (mem_release hr).elim (by simp) (by simp)
        cases hm with
        | writes =>
          cases mid with
          | nil =>
            rw [List.append_nil]
            exact ⟨hup trivial, hheld⟩
          | cons y mid => simp at hout
        | ends => simp [hrelease] at hmem
        | retries => simp [hrelease] at hmem
        | greets => rcases mem_greeting hmem with h | h | h | h <;> cases h
        | _ => simp at hmem

end Links

section Order

theorem history_concat (cfg : HostConfig) (inputs : List Input) (i : Input) :
    history cfg (inputs ++ [i]) = history cfg inputs ++ ((run cfg inputs).step i).2 := by
  rw [history, outputs_concat, ← List.append_assoc]
  rfl

theorem run_concat (cfg : HostConfig) (inputs : List Input) (i : Input) :
    run cfg (inputs ++ [i]) = ((run cfg inputs).step i).1 := Machine.run_concat ..

theorem sent_concat (inputs : List Input) (i : Input) :
    sent (inputs ++ [i]) =
      sent inputs ++ if inputs.any Input.closes then [] else i.queued.toList := by
  unfold sent
  induction inputs with
  | nil => cases i <;> rfl
  | cons j inputs ih =>
    cases hj : j.closes with
    | true => simp [List.takeWhile, hj]
    | false =>
      have hany : (j :: inputs).any Input.closes = inputs.any Input.closes := by simp [hj]
      rw [hany, List.cons_append, List.takeWhile_cons_of_pos (by simp [hj]),
        List.takeWhile_cons_of_pos (by simp [hj]), List.filterMap_cons, List.filterMap_cons, ih]
      cases j.queued <;> rfl

/-- What a step takes comes from the head of the channel. -/
theorem taken_step (i : Input) : taken (s.step i).2 ++ (s.step i).1.cmds =
    s.cmds ++ if s.closed then [] else i.queued.toList := by
  have hcmds := congrArg (fun c => c.2.1) (channel_step s i)
  have hcommands := commands_step s i
  have htaken : taken (s.step i).2 = (commands (s.step i).2).filterMap id := rfl
  rw [htaken, hcommands]
  cases i with
  | queue c =>
    rw [show ((s.step (.queue c)).1.cmds = _) from hcmds]
    simp only [Input.queued]
    split_ifs <;> simp
  | command =>
    rw [show ((s.step .command).1.cmds = _) from hcmds]
    by_cases ht : takesCommands s.phase
    · cases hc : s.cmds with
      | cons c cmds => simp [ht, Input.queued]
      | nil => by_cases hclosed : s.closed <;> simp [ht, hclosed, Input.queued]
    · simp [ht, Input.queued]
  | _ =>
    simp only at hcmds
    rw [show ((s.step _).1.cmds = s.cmds) from hcmds]
    simp [Input.queued]

theorem closed_step (i : Input) : (s.step i).1.closed = (s.closed || i.closes) := by
  have hclosed := congrArg (fun c => c.2.2) (channel_step s i)
  cases i with
  | close => exact hclosed.trans (by simp [Input.closes])
  | _ => exact hclosed.trans (by simp [Input.closes, channel])

/-- What was taken and what still waits are the commands that were sent, in their order. -/
theorem taken_append_cmds (cfg : HostConfig) (inputs : List Input) :
    taken (history cfg inputs) ++ (run cfg inputs).cmds = sent inputs ∧
      (run cfg inputs).closed = inputs.any Input.closes := by
  induction inputs using List.reverseRecOn with
  | nil => exact ⟨rfl, rfl⟩
  | append_singleton inputs i ih =>
    obtain ⟨hcmds, hclosed⟩ := ih
    rw [history_concat, run_concat, taken_append, List.append_assoc, taken_step, sent_concat,
      closed_step, ← hcmds, hclosed, List.any_append, List.append_assoc]
    exact ⟨rfl, by simp⟩

/-- The last command a task took when it ended. -/
def Ended (log : List HostEffect) (s : Host) : Prop :=
  (∃ cs, taken log = cs ++ [.stop] ∧ .stop ∉ cs) ∨
    (.stop ∉ taken log ∧ s.cmds = [] ∧ s.closed)

theorem mem_taken {c : HostCommand} : c ∈ taken log ↔ .took (some c) ∈ log := by
  simp only [taken, commands, List.mem_filterMap, id]
  constructor
  · rintro ⟨_, ⟨x, hx, hc⟩, rfl⟩
    cases x <;> cases hc
    exact hx
  · intro h
    exact ⟨some c, ⟨_, h, rfl⟩, rfl⟩

theorem Moves.to_ended (hm : Moves cfg p .ended out) (hp : p ≠ .ended) :
    ∃ c, endsTask c ∧ commands out = [c] := by
  cases hm with
  | rests => exact absurd rfl hp
  | ignores ht => cases ht
  | drops ht => cases ht
  | @ends _ c hc _ =>
    refine ⟨c, by rcases hc with rfl | rfl <;> trivial, ?_⟩
    rw [← List.singleton_append, commands_append, commands_append, commands_release]
    rfl
  | relays h => rcases h with h | ⟨_, h⟩ <;> cases h

/-- A step finds its channel closed only when it is empty. -/
theorem closed_of_commands {i : Input} (h : commands (s.step i).2 = [none]) :
    s.cmds = [] ∧ s.closed := by
  rw [commands_step] at h
  cases i with
  | command =>
    by_cases ht : takesCommands s.phase
    · cases hc : s.cmds with
      | cons c cmds => simp [ht, hc] at h
      | nil =>
        by_cases hclosed : s.closed
        · exact ⟨rfl, hclosed⟩
        · simp [ht, hc, hclosed] at h
    · simp [ht] at h
  | _ => cases h

theorem Ended.step (h : Ended log s) (i : Input) (hout : taken (s.step i).2 = []) :
    Ended (log ++ (s.step i).2) (s.step i).1 := by
  rw [Ended, taken_append, hout, List.append_nil]
  refine h.imp_right ?_
  rintro ⟨hstop, hcmds, hclosed⟩
  have hstep := taken_step s i
  rw [hout, hcmds, hclosed] at hstep
  exact ⟨hstop, by simpa using hstep, by simp [closed_step, hclosed]⟩

/-- A task ends when it takes a stop, or finds its channel closed. -/
theorem ended (cfg : HostConfig) (inputs : List Input) :
    ((run cfg inputs).phase ≠ .ended → .stop ∉ taken (history cfg inputs)) ∧
      ((run cfg inputs).phase = .ended → Ended (history cfg inputs) (run cfg inputs)) := by
  refine history_invariant (P := fun log (s : Host) => (s.phase ≠ .ended → .stop ∉ taken log) ∧
    (s.phase = .ended → Ended log s)) ?_ (s := (new cfg).1) ⟨fun _ => List.not_mem_nil, nofun⟩ inputs
  rintro log s i ⟨hgoes, hended⟩
  have hm := step_moves s i
  by_cases hp : s.phase = .ended
  · rw [hp] at hm
    obtain ⟨hout, hp'⟩ := hm.of_ended
    exact ⟨fun h => absurd hp' h, fun _ => (hended hp).step s i (by rw [hout]; rfl)⟩
  · have hold := hgoes hp
    constructor
    · intro hp' hstop
      rw [taken_append, List.mem_append] at hstop
      obtain ⟨pre, post, hout⟩ := List.append_of_mem (mem_taken.mp (hstop.resolve_left hold))
      exact hp' (hm.stops (c := some .stop) trivial hout).1
    · intro hp'
      rw [hp'] at hm
      obtain ⟨c, hc, hout⟩ := hm.to_ended hp
      match c, hc with
      | some .stop, _ =>
        refine Or.inl ⟨taken log, ?_, hold⟩
        rw [taken_append]
        simp [taken, hout]
      | none, _ =>
        obtain ⟨hcmds, hclosed⟩ := closed_of_commands s hout
        have hnone : taken (s.step i).2 = [] := by simp [taken, hout]
        exact Ended.step s (Or.inr ⟨hold, hcmds, hclosed⟩) i hnone

end Order

theorem settled_by_iff {x : HostEffect} {m : AppMsg} :
    x.settles = some m ↔ x = .wrote m ∨ ∃ id, x = .emit id (.dropped m) := by
  constructor
  · intro h
    cases x with
    | wrote m' => exact Or.inl (congrArg HostEffect.wrote (Option.some.inj h))
    | emit id ev =>
      cases ev with
      | dropped m' => exact Or.inr ⟨id, by rw [Option.some.inj h]⟩
      | _ => cases h
    | _ => cases h
  · rintro (rfl | ⟨id, rfl⟩) <;> rfl

/-- Every message taken from the channel has one outcome. Right after it is taken it is written
and flushed to the link that is up, or reported as dropped, unless that write is the last thing
that happens; nothing else is written or reported; outcomes come in the order in which the
commands were sent, on each link too; and when the task ends, all messages sent before the stop
have theirs. -/
theorem one_outcome (cfg : HostConfig) (inputs : List Input) :
    (∀ pre m post, history cfg inputs = pre ++ .took (some (.send m)) :: post →
      post = [] ∧ inFlight (run cfg inputs).phase = [m] ∨
        ∃ x rest, post = x :: rest ∧ (x = .wrote m ∨ ∃ id, x = .emit id (.dropped m))) ∧
    (∀ pre x post m, history cfg inputs = pre ++ x :: post →
      (x = .wrote m ∨ ∃ id, x = .emit id (.dropped m)) →
        ∃ pre', pre = pre' ++ [.took (some (.send m))]) ∧
    (∀ pre m post, history cfg inputs = pre ++ .wrote m :: post →
      LinkUp pre ∧ inUse pre = [.link]) ∧
    sends (sent inputs) = settled (history cfg inputs) ++ inFlight (run cfg inputs).phase ++
      sends (run cfg inputs).cmds ∧
    (∀ pre link post, history cfg inputs = pre ++ link ++ post →
      (written link).Sublist (sends (sent inputs))) ∧
    ((run cfg inputs).phase = .ended → ∀ cs rest, sent inputs = cs ++ .stop :: rest → .stop ∉ cs →
      settled (history cfg inputs) = sends cs) ∧
    ((run cfg inputs).phase = .ended → .stop ∉ sent inputs →
      settled (history cfg inputs) = sends (sent inputs)) := by
  have hpaired := paired cfg inputs
  have hbalance := hpaired.balance
  obtain ⟨hsent, -⟩ := taken_append_cmds cfg inputs
  have hsends : sends (sent inputs) = settled (history cfg inputs) ++
      inFlight (run cfg inputs).phase ++ sends (run cfg inputs).cmds := by
    rw [← hsent, sends, List.filterMap_append, ← sends, ← sends, hbalance]
  have hends : (run cfg inputs).phase = .ended →
      settled (history cfg inputs) = sends (taken (history cfg inputs)) := by
    intro h
    rw [hbalance, h]
    exact (List.append_nil _).symm
  refine ⟨?_, ?_, fun _ _ _ => wrote_linkUp cfg inputs, hsends, ?_, ?_, ?_⟩
  · intro pre m post h
    rcases hpaired.next h with h | ⟨x, rest, rfl, hx⟩
    · exact Or.inl h
    · exact Or.inr ⟨x, rest, rfl, settled_by_iff.mp hx⟩
  · intro pre x post m h hx
    exact hpaired.prev h (settled_by_iff.mpr hx)
  · intro pre link post h
    have hwritten : ∀ log : List HostEffect, (written log).Sublist (settled log) := by
      intro log
      induction log with
      | nil => exact .slnil
      | cons x log ih =>
        cases x with
        | wrote m => exact ih.cons_cons m
        | emit id ev =>
          cases ev with
          | dropped m => exact ih.cons m
          | _ => exact ih
        | _ => exact ih
    have hlink : (settled link).Sublist (settled (history cfg inputs)) := by
      rw [h, settled_append, settled_append]
      exact ((settled pre).sublist_append_right _).trans (List.sublist_append_left _ _)
    rw [hsends, List.append_assoc]
    exact ((hwritten link).trans hlink).trans (List.sublist_append_left _ _)
  · intro h cs rest hcs hstop
    rw [hends h]
    rcases (ended cfg inputs).2 h with ⟨cs', htaken, hstop'⟩ | ⟨hnone, hcmds, -⟩
    · rw [htaken, List.append_assoc] at hsent
      have hcut : cs ++ .stop :: rest = cs' ++ .stop :: (run cfg inputs).cmds :=
        hcs.symm.trans hsent.symm
      obtain rfl : cs = cs' := by
        rcases Log.append_eq_cut.mp hcut with ⟨mid, rfl, -⟩ | ⟨mid, rfl, hmid⟩
        · exact absurd (by simp) hstop
        · cases mid with
          | nil => exact (List.append_nil _).symm
          | cons x mid =>
            obtain ⟨rfl, -⟩ := List.cons.inj hmid
            exact absurd (by simp) hstop'
      rw [htaken, sends, List.filterMap_append, ← sends]
      exact List.append_nil _
    · rw [hcmds, List.append_nil, hcs] at hsent
      exact absurd (hsent ▸ by simp) hnone
  · intro h hstop
    rw [hends h]
    rcases (ended cfg inputs).2 h with ⟨cs', htaken, -⟩ | ⟨-, hcmds, -⟩
    · exact absurd (hsent ▸ by simp [htaken]) hstop
    · rw [← hsent, hcmds, List.append_nil]

end Host

end MultiAi
