import MultiAi.Host.Task
import MultiAi.Library.Log

/-! # What the probe task tells

The events of the task come in rounds: it connects, and then needs the user, or retries, or
serves a probe until the link fails.
-/

namespace MultiAi

open Machine

/-- The event an effect tells; a dropped command is none of the rounds. -/
def HostEffect.told : HostEffect → Option HostEvent
  | .emit _ (.dropped _) => none
  | .emit _ ev => some ev
  | _ => none

namespace Host

def events (log : List HostEffect) : List HostEvent := log.filterMap HostEffect.told

/-- A round whose probe is served. -/
def served (hello : HelloInfo) (hooks : Except String (List HookResult))
    (notes : Option (List String)) (msgs : List ProbeMsg) : List HostEvent :=
  [.probe .connecting, .hello hello, .hooks hooks] ++ notes.toList.map .notes ++ [.probe .up] ++
    msgs.map .msg

inductive Round : List HostEvent → Prop
  | needsUser (p : Problem) : Round [.probe .connecting, .probe (.needsUser p)]
  | retrying (retryIn : ℕ) (reason : String) :
      Round [.probe .connecting, .probe (.retrying retryIn reason)]
  | served (hello : HelloInfo) (hooks : Except String (List HookResult))
      (notes : Option (List String)) (msgs : List ProbeMsg) (retryIn : ℕ) (reason : String) :
      Round (served hello hooks notes msgs ++ [.probe (.retrying retryIn reason)])

/-- What the task has told of its round where it waits. -/
def Part : Phase → List HostEvent → Prop
  | .connecting, part | .greeting _, part => part = [.probe .connecting]
  | .serving _, part | .acking .., part | .sending .., part =>
    ∃ hello hooks notes msgs, part = served hello hooks notes msgs
  | .explaining _, part => part = [.probe .connecting] ∨
    ∃ hello hooks notes msgs, part = served hello hooks notes msgs
  | .waiting _, part => part = []
  | .ended, part => ∃ rest, Round (part ++ rest)

variable {cfg : HostConfig} {p p' : Phase} {out log : List HostEffect}

theorem events_append (log out : List HostEffect) : events (log ++ out) = events log ++ events out :=
  List.filterMap_append

theorem events_release (p : Phase) : events (release p) = [] := by
  cases p with
  | waiting pause => cases pause <;> rfl
  | _ => rfl

theorem events_ends (c : Option HostCommand) (p : Phase) :
    events (.took c :: (release p ++ [.ends])) = [] := by
  rw [← List.singleton_append, events_append, events_append, events_release]
  rfl

theorem events_retries (p : Phase) : events (.took (some .retry) :: (release p ++
    [.emit cfg.id (.probe .connecting), .opens cfg])) = [.probe .connecting] := by
  rw [← List.singleton_append, events_append, events_append, events_release]
  rfl

/-- A property of the history and the phase that every move preserves. -/
theorem history_rule (cfg : HostConfig) {P : List HostEffect → Phase → Prop}
    (hstart : P [.emit cfg.id (.probe .connecting), .opens cfg] .connecting)
    (hmove : ∀ log p p' out, P log p → Moves cfg p p' out → P (log ++ out) p')
    (inputs : List Input) : P (history cfg inputs) (run cfg inputs).phase := by
  have h := history_invariant (P := fun log (s : Host) => s.cfg = cfg ∧ P log s.phase)
    (fun log s i hs => ⟨(step_cfg s i).trans hs.1,
      hmove log s.phase _ _ hs.2 (hs.1 ▸ step_moves s i)⟩) (s := (new cfg).1) ⟨rfl, hstart⟩ inputs
  exact h.2

section Rounds

/-- Some rounds and a part of the next. -/
def Story (log : List HostEffect) (p : Phase) : Prop :=
  ∃ (rounds : List (List HostEvent)) (part : List HostEvent),
    events log = rounds.flatten ++ part ∧ (∀ round ∈ rounds, Round round) ∧ Part p part

/-- Every part is the beginning of a round. -/
theorem Part.completes {part : List HostEvent} (h : Part p part) : ∃ rest, Round (part ++ rest) := by
  have hconnecting : ∃ rest, Round ([.probe .connecting] ++ rest) := ⟨_, .retrying 0 ""⟩
  have hserved : ∀ hello hooks notes msgs, ∃ rest, Round (served hello hooks notes msgs ++ rest) :=
    fun hello hooks notes msgs => ⟨_, .served hello hooks notes msgs 0 ""⟩
  cases p with
  | connecting => exact h ▸ hconnecting
  | greeting o => exact h ▸ hconnecting
  | serving _ | acking _ _ | sending _ _ =>
    obtain ⟨hello, hooks, notes, msgs, rfl⟩ := h
    exact hserved hello hooks notes msgs
  | explaining _ =>
    rcases h with rfl | ⟨hello, hooks, notes, msgs, rfl⟩
    · exact hconnecting
    · exact hserved hello hooks notes msgs
  | waiting pause =>
    obtain rfl : part = [] := h
    exact ⟨_, .retrying 0 ""⟩
  | ended => exact h

/-- A round goes on. -/
theorem Story.goesOn (h : Story log p) (hp : ∀ part, Part p part → Part p' (part ++ events out)) :
    Story (log ++ out) p' := by
  obtain ⟨rounds, part, he, hr, hpart⟩ := h
  exact ⟨rounds, part ++ events out, by rw [events_append, he, List.append_assoc], hr, hp part hpart⟩

/-- Nothing is told. -/
theorem Story.same (h : Story log p) (hout : events out = [])
    (hp : ∀ part, Part p part → Part p' part) : Story (log ++ out) p' :=
  h.goesOn fun part hpart => by rw [hout, List.append_nil]; exact hp part hpart

/-- A round is complete. -/
theorem Story.completes {pause : Pause} (h : Story log p)
    (hp : ∀ part, Part p part → Round (part ++ events out)) :
    Story (log ++ out) (.waiting pause) := by
  obtain ⟨rounds, part, he, hr, hpart⟩ := h
  refine ⟨rounds ++ [part ++ events out], [], ?_, ?_, rfl⟩
  · rw [events_append, he]
    simp
  · intro round hround
    rcases List.mem_append.mp hround with hround | hround
    · exact hr round hround
    · obtain rfl := List.mem_singleton.mp hround
      exact hp part hpart

theorem Story.moves (h : Story log p) (hm : Moves cfg p p' out) : Story (log ++ out) p' := by
  cases hm with
  | rests => exact h.same rfl fun _ => id
  | ignores => exact h.same rfl fun _ => id
  | drops => exact h.same rfl fun _ => id
  | ends => exact h.same (events_ends _ _) fun part => Part.completes
  | retries =>
    refine h.goesOn fun part hpart => ?_
    rw [events_retries, hpart]
    rfl
  | elapses => exact h.goesOn fun part hpart => hpart ▸ rfl
  | denied => exact h.completes fun part hpart => hpart ▸ .needsUser _
  | refused => exact h.completes fun part hpart => hpart ▸ .retrying _ _
  | links => exact h.same rfl fun _ => id
  | mismatches => exact h.completes fun part hpart => hpart ▸ .needsUser _
  | failsHello => exact h.same rfl fun _ => Or.inl
  | @greets o hello upSince =>
    refine h.goesOn fun part hpart => ?_
    obtain rfl : part = [.probe .connecting] := hpart
    by_cases hn : o.notes = []
    · exact ⟨hello, o.hooks, none, [], by simp [hn, served, events, HostEffect.told]⟩
    · exact ⟨hello, o.hooks, some o.notes, [], by simp [hn, served, events, HostEffect.told]⟩
  | @relays upSince _ msg hp =>
    refine h.goesOn fun part hpart => ?_
    obtain ⟨hello, hooks, notes, msgs, rfl⟩ := hpart
    have hpart' : ∃ hello' hooks' notes' msgs', served hello hooks notes msgs ++ [.msg msg] =
        served hello' hooks' notes' msgs' :=
      ⟨hello, hooks, notes, msgs ++ [msg], by simp [served]⟩
    rcases hp with rfl | ⟨offset, rfl⟩ <;> exact hpart'
  | takes => exact h.same rfl fun _ => id
  | fails hp =>
    rcases hp with rfl | ⟨offset, rfl⟩
    · exact h.same rfl fun _ => Or.inr
    · exact h.same rfl fun _ => Or.inr
  | acks => exact h.same rfl fun _ => id
  | writes => exact h.same rfl fun _ => id
  | loses => exact h.same rfl fun _ => Or.inr
  | explains =>
    refine h.completes ?_
    rintro part (rfl | ⟨hello, hooks, notes, msgs, rfl⟩)
    · exact .retrying _ _
    · exact .served ..

theorem story (cfg : HostConfig) (inputs : List Input) :
    Story (history cfg inputs) (run cfg inputs).phase :=
  history_rule cfg ⟨[], [.probe .connecting], rfl, fun _ h => (List.not_mem_nil h).elim, rfl⟩
    (fun _ _ _ _ h hm => h.moves hm) inputs

end Rounds

section Messages

/-- Every message follows the probe's being up, with messages only in between. -/
def Announced (es : List HostEvent) : Prop :=
  ∀ pre m post, es = pre ++ .msg m :: post →
    ∃ (a : List HostEvent) (msgs : List ProbeMsg), pre = a ++ .probe .up :: msgs.map .msg

theorem Announced.append {es new : List HostEvent} (h : Announced es)
    (hnew : ∀ m, .msg m ∉ new) : Announced (es ++ new) := by
  intro pre m post heq
  obtain ⟨mid, hes, -⟩ := Log.cut_of_not_mem heq (hnew m)
  exact h pre m mid hes

theorem Announced.concat {es a : List HostEvent} {msgs : List ProbeMsg} {m : ProbeMsg}
    (h : Announced es) (hes : es = a ++ .probe .up :: msgs.map .msg) : Announced (es ++ [.msg m]) := by
  intro pre m' post heq
  rcases Log.concat_eq_cut.mp heq with ⟨mid, hmid, -⟩ | ⟨rfl, -⟩
  · exact h pre m' mid hmid
  · exact ⟨a, msgs, hes⟩

theorem announced (cfg : HostConfig) (inputs : List Input) :
    Announced (events (history cfg inputs)) := by
  have hrule := history_rule cfg (P := fun log p => Story log p ∧ Announced (events log))
    ⟨⟨[], [.probe .connecting], rfl, fun _ h => (List.not_mem_nil h).elim, rfl⟩, ?_⟩ ?_ inputs
  · exact hrule.2
  · intro pre m post heq
    have hfirst : [HostEvent.probe .connecting] = pre ++ .msg m :: post := heq
    have hmem : HostEvent.msg m ∈ [HostEvent.probe .connecting] := hfirst ▸ by simp
    simp at hmem
  · rintro log p p' out ⟨hstory, h⟩ hm
    refine ⟨hstory.moves hm, ?_⟩
    rw [events_append]
    cases hm with
    | @relays upSince _ msg hp =>
      obtain ⟨rounds, part, he, -, hello, hooks, notes, msgs, rfl⟩ := hstory
      refine @Announced.concat _ (rounds.flatten ++ ([.probe .connecting, .hello hello,
        .hooks hooks] ++ notes.toList.map .notes)) msgs _ h ?_
      rw [he]
      simp [served]
    | ends =>
      rw [events_ends, List.append_nil]
      exact h
    | retries =>
      rw [events_retries]
      exact h.append fun m => by simp
    | @greets o hello upSince =>
      refine h.append fun m => ?_
      by_cases hn : o.notes = [] <;> simp [hn, events, HostEffect.told]
    | _ => exact h.append fun m => by simp [events, HostEffect.told]

end Messages

section Waiting

/-- A dropped command is told, or nothing is, and no attempt begins. -/
def Quiet : HostEffect → Prop
  | .emit _ (.dropped _) => True
  | .emit .. | .opens _ => False
  | _ => True

def isRetry : HostEffect → Bool
  | .took (some .retry) => true
  | _ => false

/-- The task waits for the user, or it has ended. -/
def Parked : Phase → Prop
  | .waiting .denied | .waiting .mismatch | .ended => True
  | _ => False

theorem quiet_release (p : Phase) : ∀ x ∈ release p, Quiet x := by
  rintro x hx
  rcases mem_release hx with rfl | rfl <;> exact trivial

/-- What a parked task does without a retry. -/
theorem Moves.parked (hm : Moves cfg p p' out) (hp : Parked p) :
    (Parked p' ∧ ∀ x ∈ out, Quiet x) ∨ ∃ rest, out = .took (some .retry) :: rest := by
  cases hm with
  | rests => exact Or.inl ⟨hp, fun _ h => (List.not_mem_nil h).elim⟩
  | ignores => exact Or.inr ⟨_, rfl⟩
  | drops => exact Or.inl ⟨hp, by simp [Quiet]⟩
  | ends hc =>
    refine Or.inl ⟨trivial, ?_⟩
    have htook : ∀ c, Quiet (.took c) := fun _ => trivial
    simp only [List.mem_cons, List.mem_append, List.not_mem_nil, or_false]
    rintro x (rfl | hx | rfl)
    · exact htook _
    · exact quiet_release _ x hx
    · exact trivial
  | retries => exact Or.inr ⟨_, rfl⟩
  | fails h => rcases h with rfl | ⟨offset, rfl⟩ <;> exact hp.elim
  | _ => exact hp.elim

/-- The state that needs the user is the last thing a move tells. -/
theorem Moves.needsUser_last (hm : Moves cfg p p' out) {pre post : List HostEffect} {id : String}
    {q : Problem} (h : out = pre ++ .emit id (.probe (.needsUser q)) :: post) :
    post = [] ∧ Parked p' := by
  have hmem : HostEffect.emit id (.probe (.needsUser q)) ∈ out := h ▸ by simp
  have hrelease : ∀ p, HostEffect.emit id (.probe (.needsUser q)) ∉ release p :=
    fun p hr => quiet_release p _ hr
  cases hm with
  | denied =>
    rcases pre with _ | ⟨x, _ | ⟨y, pre⟩⟩
    · simp at h
    · simp only [List.cons_append, List.nil_append, List.cons.injEq] at h
      exact ⟨h.2.2.symm, trivial⟩
    · simp at h
  | mismatches =>
    rcases pre with _ | ⟨x, pre⟩
    · simp only [List.nil_append, List.cons.injEq] at h
      exact ⟨h.2.symm, trivial⟩
    · simp at h
  | greets => rcases mem_greeting hmem with h | h | h | h <;> cases h
  | ends => simp [hrelease] at hmem
  | retries => simp [hrelease] at hmem
  | _ => simp at hmem

/-- Once the user is needed, the task is quiet and parked until it takes a retry. -/
theorem parked (cfg : HostConfig) (inputs : List Input) {pre mid post : List HostEffect}
    {id : String} {q : Problem}
    (h : history cfg inputs = pre ++ .emit id (.probe (.needsUser q)) :: (mid ++ post))
    (hmid : .took (some .retry) ∉ mid) : ∀ x ∈ mid, Quiet x := by
  have hrule := history_rule cfg (P := fun log p =>
    (∀ pre id q mid post, log = pre ++ .emit id (.probe (.needsUser q)) :: (mid ++ post) →
      .took (some .retry) ∉ mid → ∀ x ∈ mid, Quiet x) ∧
    ∀ pre id q rest, log = pre ++ .emit id (.probe (.needsUser q)) :: rest →
      .took (some .retry) ∉ rest → Parked p) ?_ ?_ inputs
  · exact hrule.1 pre id q mid post h hmid
  · have hfirst : ∀ pre id q rest, [HostEffect.emit cfg.id (.probe .connecting), .opens cfg] ≠
        pre ++ .emit id (.probe (.needsUser q)) :: rest := by
      intro pre id q rest heq
      have hmem : HostEffect.emit id (.probe (.needsUser q)) ∈
        [HostEffect.emit cfg.id (.probe .connecting), .opens cfg] := heq ▸ by simp
      simp at hmem
    exact ⟨fun pre id q mid post heq => (hfirst _ _ _ _ heq).elim,
      fun pre id q rest heq => (hfirst _ _ _ _ heq).elim⟩
  · rintro log p p' out ⟨hquiet, hparked⟩ hm
    constructor
    · intro pre id q mid post heq hmid
      rcases Log.append_eq_cut.mp heq with ⟨rest, hlog, hrest⟩ | ⟨rest, rfl, hout⟩
      · rcases List.append_eq_append_iff.mp hrest with ⟨c, rfl, -⟩ | ⟨c, rfl, hc⟩
        · exact hquiet pre id q mid c hlog hmid
        · -- what comes after the old log is told by a parked task
          have hold : .took (some .retry) ∉ rest := fun hr => hmid (List.mem_append_left _ hr)
          intro x hx
          rcases List.mem_append.mp hx with hx | hx
          · exact hquiet pre id q rest [] (by simpa using hlog) hold x hx
          · rcases hm.parked (hparked pre id q rest hlog hold) with ⟨-, hq⟩ | ⟨rest', rfl⟩
            · exact hq x (hc ▸ List.mem_append_left _ hx)
            · cases c with
              | nil => cases hx
              | cons y c =>
                obtain ⟨rfl, -⟩ := List.cons.inj hc
                exact absurd (List.mem_append_right _ List.mem_cons_self) hmid
      · obtain ⟨hnil, -⟩ := hm.needsUser_last hout
        rw [(List.append_eq_nil_iff.mp hnil).1]
        exact fun x hx => (List.not_mem_nil hx).elim
    · intro pre id q rest heq hrest
      rcases Log.append_eq_cut.mp heq with ⟨mid, hlog, rfl⟩ | ⟨mid, rfl, hout⟩
      · rw [List.mem_append, not_or] at hrest
        rcases hm.parked (hparked pre id q mid hlog hrest.1) with ⟨hp', -⟩ | ⟨rest', rfl⟩
        · exact hp'
        · exact absurd List.mem_cons_self hrest.2
      · exact (hm.needsUser_last hout).2

end Waiting

section Resources

/-- What the task has in use: an attempt to connect, or a link. -/
inductive Resource where
  | attempt
  | link
  deriving DecidableEq, Repr

def use (held : List Resource) : HostEffect → List Resource
  | .opens _ => .attempt :: held
  | .openEnds => held.erase .attempt
  | .linked => .link :: held
  | .unlinked => held.erase .link
  | _ => held

/-- What is in use after some effects. -/
def inUse (log : List HostEffect) : List Resource := log.foldl use []

/-- What is in use in a phase. -/
def holds : Phase → List Resource
  | .connecting => [.attempt]
  | .waiting .denied | .waiting (.backoff _) | .ended => []
  | .greeting _ | .serving _ | .acking .. | .sending .. | .explaining _ | .waiting .mismatch =>
    [.link]

/-- At no point of some effects more than one thing is in use. -/
def Single (held : List Resource) : List HostEffect → Prop
  | [] => held.length ≤ 1
  | x :: out => held.length ≤ 1 ∧ Single (use held x) out

theorem single_release (p : Phase) (rest : List HostEffect) (h : Single [] rest) :
    Single (holds p) (release p ++ rest) ∧
      (release p ++ rest).foldl use (holds p) = rest.foldl use [] := by
  cases p with
  | waiting pause => cases pause <;> simpa [Single, holds, release, use] using h
  | _ => simpa [Single, holds, release, use] using h

theorem Moves.single (hm : Moves cfg p p' out) :
    Single (holds p) out ∧ out.foldl use (holds p) = holds p' := by
  have hle : ∀ p, (holds p).length ≤ 1 := by
    intro p
    cases p with
    | waiting pause => cases pause <;> simp [holds]
    | _ => simp [holds]
  cases hm with
  | rests => exact ⟨hle _, rfl⟩
  | ignores => exact ⟨⟨hle _, hle _⟩, rfl⟩
  | drops => exact ⟨⟨hle _, hle _, hle _⟩, rfl⟩
  | ends =>
    have hend : Single [] [.ends] := by simp [Single, use]
    exact ⟨⟨hle _, (single_release _ _ hend).1⟩, (single_release _ _ hend).2⟩
  | retries =>
    have hnew : Single [] [.emit cfg.id (.probe .connecting), .opens cfg] := by simp [Single, use]
    exact ⟨⟨hle _, (single_release _ _ hnew).1⟩, (single_release _ _ hnew).2⟩
  | @greets o hello upSince => by_cases hn : o.notes = [] <;> simp [hn, Single, holds, use]
  | relays hp => rcases hp with rfl | ⟨offset, rfl⟩ <;> simp [Single, holds, use]
  | fails hp => rcases hp with rfl | ⟨offset, rfl⟩ <;> simp [Single, holds]
  | _ => simp [Single, holds, use]

/-- At most one attempt or link is in use after any of the effects of the task. -/
theorem inUse_le (cfg : HostConfig) (inputs : List Input) {pre post : List HostEffect}
    (h : history cfg inputs = pre ++ post) : (inUse pre).length ≤ 1 := by
  have happend : ∀ (out : List HostEffect) held (pre post : List HostEffect), Single held out →
      out = pre ++ post → (pre.foldl use held).length ≤ 1 := by
    intro out held pre post hs heq
    induction pre generalizing out held with
    | nil => cases out <;> first | exact hs | exact hs.1
    | cons x pre ih =>
      subst heq
      exact ih _ _ hs.2 rfl
  have hrule := history_rule cfg (P := fun log p =>
    inUse log = holds p ∧ ∀ pre post, log = pre ++ post → (inUse pre).length ≤ 1) ?_ ?_ inputs
  · exact hrule.2 pre post h
  · exact ⟨rfl, fun pre post heq => happend _ [] pre post (by simp [Single, use]) heq⟩
  · rintro log p p' out ⟨hlog, hle⟩ hm
    obtain ⟨hsingle, hend⟩ := hm.single
    refine ⟨by rw [inUse, List.foldl_append, ← inUse, hlog, hend], fun pre post heq => ?_⟩
    rcases List.append_eq_append_iff.mp heq with ⟨c, rfl, hc⟩ | ⟨c, rfl, -⟩
    · rw [inUse, List.foldl_append, ← inUse, hlog]
      exact happend out _ c post hsingle hc
    · exact hle pre c rfl

end Resources

section Ending

/-- The command ends the task: it is told to stop, or nobody can tell it anything. -/
def endsTask : Option HostCommand → Prop
  | none | some .stop => True
  | _ => False

/-- A move that takes such a command ends the task and tells nothing. -/
theorem Moves.stops (hm : Moves cfg p p' out) {pre post : List HostEffect} {c : Option HostCommand}
    (hc : endsTask c) (h : out = pre ++ .took c :: post) :
    p' = .ended ∧ ∀ x ∈ post, ∀ id ev, x ≠ .emit id ev := by
  have hmem : HostEffect.took c ∈ out := h ▸ by simp
  have hrelease : ∀ p c, HostEffect.took c ∉ release p :=
    fun p c hr => (mem_release hr).elim nofun nofun
  cases hm with
  | @ends _ c' _ _ =>
    refine ⟨rfl, fun x hx id ev => ?_⟩
    cases pre with
    | nil =>
      obtain ⟨-, rfl⟩ := List.cons.inj h
      rintro rfl
      rcases List.mem_append.mp hx with hx | hx
      · exact (mem_release hx).elim nofun nofun
      · simp at hx
    | cons y pre =>
      obtain ⟨-, h⟩ := List.cons.inj h
      have htook : HostEffect.took c ∈ release p ++ [.ends] := h ▸ by simp
      simp [hrelease] at htook
  | ignores =>
    simp at hmem
    exact (hmem ▸ hc : endsTask (some .retry)).elim
  | retries =>
    simp [hrelease] at hmem
    exact (hmem ▸ hc : endsTask (some .retry)).elim
  | @drops _ m =>
    simp at hmem
    exact (hmem ▸ hc : endsTask (some (.send m))).elim
  | @takes _ m =>
    simp at hmem
    exact (hmem ▸ hc : endsTask (some (.send m))).elim
  | greets => rcases mem_greeting hmem with h | h | h | h <;> cases h
  | _ => simp at hmem

/-- A task that has ended does nothing. -/
theorem Moves.of_ended (hm : Moves cfg .ended p' out) : out = [] ∧ p' = .ended := by
  cases hm with
  | rests => exact ⟨rfl, rfl⟩
  | ignores ht => cases ht
  | drops ht => cases ht
  | ends _ ht => cases ht
  | fails hp => rcases hp with hp | ⟨offset, hp⟩ <;> cases hp

/-- After a command that ends the task nothing is emitted. -/
theorem stopped (cfg : HostConfig) (inputs : List Input) {pre post : List HostEffect}
    {c : Option HostCommand} (h : history cfg inputs = pre ++ .took c :: post) (hc : endsTask c) :
    ∀ x ∈ post, ∀ id ev, x ≠ .emit id ev := by
  have hrule := history_rule cfg (P := fun log p =>
    ∀ pre c post, log = pre ++ .took c :: post → endsTask c →
      p = .ended ∧ ∀ x ∈ post, ∀ id ev, x ≠ .emit id ev) ?_ ?_ inputs
  · exact (hrule pre c post h hc).2
  · intro pre c post heq
    have hmem : HostEffect.took c ∈
      [HostEffect.emit cfg.id (.probe .connecting), .opens cfg] := heq ▸ by simp
    simp at hmem
  · intro log p p' out hlog hm pre c post heq hc
    rcases Log.append_eq_cut.mp heq with ⟨mid, hmid, rfl⟩ | ⟨mid, rfl, hout⟩
    · obtain ⟨rfl, hpost⟩ := hlog pre c mid hmid hc
      obtain ⟨rfl, rfl⟩ := hm.of_ended
      exact ⟨rfl, by rwa [List.append_nil]⟩
    · exact hm.stops hc hout

end Ending

/-- The events of the task, without the commands it drops, are the beginning of a row of
rounds; messages are told only while the probe is up; once the user is needed the task only
drops commands, and does not connect, until it takes a retry; at most one attempt or link is in
use; and nothing is told after a stop or the end of the commands. -/
theorem event_grammar (cfg : HostConfig) (inputs : List Input) :
    (∃ rounds : List (List HostEvent), (∀ round ∈ rounds, Round round) ∧
      events (history cfg inputs) <+: rounds.flatten) ∧
    Announced (events (history cfg inputs)) ∧
    (∀ pre id q mid post,
      history cfg inputs = pre ++ .emit id (.probe (.needsUser q)) :: (mid ++ post) →
        .took (some .retry) ∉ mid → ∀ x ∈ mid, Quiet x) ∧
    (∀ pre post, history cfg inputs = pre ++ post → (inUse pre).length ≤ 1) ∧
    ∀ pre c post, history cfg inputs = pre ++ .took c :: post → endsTask c →
      ∀ x ∈ post, ∀ id ev, x ≠ .emit id ev := by
  refine ⟨?_, announced cfg inputs, fun _ _ _ _ _ => parked cfg inputs,
    fun _ _ => inUse_le cfg inputs, fun _ _ _ => stopped cfg inputs⟩
  obtain ⟨rounds, part, he, hr, hpart⟩ := story cfg inputs
  obtain ⟨rest, hround⟩ := hpart.completes
  refine ⟨rounds ++ [part ++ rest], ?_, rest, by simp [he]⟩
  intro round h
  rcases List.mem_append.mp h with h | h
  · exact hr round h
  · exact List.mem_singleton.mp h ▸ hround

end Host

end MultiAi
