import MultiAi.Library.Log
import MultiAi.Library.Trace
import Mathlib.Algebra.Group.Nat.Defs
import Mathlib.Data.List.Count

/-! # The connect timer and the host-key prompt

The handler of the server's key and the timer of a connect attempt share two atomics. Each step is
one operation of either, in any order. Only the one that took the phase from idle goes on, so
giving up and prompting exclude each other.
-/

namespace MultiAi.Hop

open Trace

inductive Phase where
  | idle
  | prompting
  | abandoned
  deriving DecidableEq, Repr

/-- Where a call of `check_server_key` is. -/
inductive Handler where
  | returned
  | unknown
  | claimed
  | confirming
  | learning
  | counting
  | releasing
  deriving DecidableEq, Repr

/-- Where the timer of `connect_hop` is. -/
inductive Timer where
  | starting
  | resting
  | sleeping
  | woken
  | claiming
  | gaveUp
  | connected
  deriving DecidableEq, Repr

/-- The state of a hop, and the count of prompts that its timer has seen. -/
structure HopState where
  phase : Phase := .idle
  promptsDone : ℕ := 0
  handler : Handler := .returned
  timer : Timer := .starting
  seen : ℕ := 0
  deriving DecidableEq, Repr

/-- What happens next. Of the handler: the key is looked up, the phase is claimed or found taken,
the prompt opens and is answered, the key is learned, the prompt is counted and the phase is
released. Of the timer: the count is loaded, a sleep begins and ends, or the hop connects; the
count is found to be another or the same, and the phase is claimed or found taken. -/
inductive Event where
  | check (unknown : Bool)
  | claim
  | refused
  | prompt
  | answer (trusted : Bool)
  | learn (ok : Bool)
  | count
  | release
  | start
  | sleep
  | wake
  | connect
  | changed
  | same
  | giveUp
  | again
  deriving DecidableEq, Repr

def step (s : HopState) : Event → Option HopState
  | .check unknown =>
    if s.handler = .returned then
      some { s with handler := if unknown then .unknown else .returned }
    else none
  | .claim =>
    if s.handler = .unknown ∧ s.phase = .idle then
      some { s with handler := .claimed, phase := .prompting }
    else none
  | .refused =>
    if s.handler = .unknown ∧ s.phase ≠ .idle then some { s with handler := .returned } else none
  | .prompt => if s.handler = .claimed then some { s with handler := .confirming } else none
  | .answer trusted =>
    if s.handler = .confirming then
      some { s with handler := if trusted then .learning else .counting }
    else none
  | .learn _ => if s.handler = .learning then some { s with handler := .counting } else none
  | .count =>
    if s.handler = .counting then
      some { s with handler := .releasing, promptsDone := (s.promptsDone + 1) % 2 ^ 64 }
    else none
  | .release =>
    if s.handler = .releasing then some { s with handler := .returned, phase := .idle } else none
  | .start =>
    if s.timer = .starting then some { s with timer := .resting, seen := s.promptsDone } else none
  | .sleep => if s.timer = .resting then some { s with timer := .sleeping } else none
  | .wake => if s.timer = .sleeping then some { s with timer := .woken } else none
  | .connect => if s.timer = .sleeping then some { s with timer := .connected } else none
  | .changed =>
    if s.timer = .woken ∧ s.promptsDone ≠ s.seen then
      some { s with timer := .resting, seen := s.promptsDone }
    else none
  | .same =>
    if s.timer = .woken ∧ s.promptsDone = s.seen then some { s with timer := .claiming } else none
  | .giveUp =>
    if s.timer = .claiming ∧ s.phase = .idle then
      some { s with timer := .gaveUp, phase := .abandoned }
    else none
  | .again =>
    if s.timer = .claiming ∧ s.phase ≠ .idle then some { s with timer := .resting } else none

/-- A run of the two from the start. -/
def run (es : List Event) : Option HopState := trace step {} es

/-- The handler has the phase. -/
def Handler.Holds (h : Handler) : Prop := h ≠ .returned ∧ h ≠ .unknown

/-- The phase says who has it. -/
structure Owned (s : HopState) : Prop where
  prompting : s.phase = .prompting ↔ s.handler.Holds
  abandoned : s.phase = .abandoned ↔ s.timer = .gaveUp

section Safety

variable {s t : HopState} {e : Event} {es pre mid post : List Event}

theorem Owned.step (hs : Owned s) (h : step s e = some t) : Owned t := by
  obtain ⟨hp, ha⟩ := hs
  cases e <;> simp only [Hop.step, Option.ite_none_right_eq_some, Option.some.injEq] at h <;>
    obtain ⟨hg, rfl⟩ := h <;> constructor <;> grind [Handler.Holds]

theorem owned_run (h : run es = some s) : Owned s := by
  have hstart : Owned {} := by
    constructor <;> simp [Handler.Holds]
  exact trace_invariant (Q := fun _ => True) (fun _ _ _ hs _ h => hs.step h) hstart
    (fun _ _ => True.intro) h

/-- The timer gave up: the handler cannot claim the phase any more. -/
theorem abandoned_step (hs : s.phase = .abandoned ∧ ¬s.handler.Holds) (h : step s e = some t) :
    (t.phase = .abandoned ∧ ¬t.handler.Holds) ∧ e ≠ .prompt ∧ ∀ ok, e ≠ .learn ok := by
  cases e <;> simp only [step, Option.ite_none_right_eq_some, Option.some.injEq] at h <;>
    obtain ⟨hg, rfl⟩ := h <;> grind [Handler.Holds]

/-- While a prompt is open, and the key of a trusted one is not learned yet. -/
theorem open_step (hs : s.phase = .prompting ∧ (s.handler = .confirming ∨ s.handler = .learning))
    (he : e ≠ .answer false ∧ ∀ ok, e ≠ .learn ok) (h : step s e = some t) :
    t.phase = .prompting ∧ (t.handler = .confirming ∨ t.handler = .learning) := by
  cases e <;> simp only [step, Option.ite_none_right_eq_some, Option.some.injEq] at h <;>
    obtain ⟨hg, rfl⟩ := h <;> grind

theorem prompt_step (hs : Owned s) (h : step s .prompt = some t) :
    t.phase = .prompting ∧ t.handler = .confirming := by
  simp only [step, Option.ite_none_right_eq_some, Option.some.injEq] at h
  obtain ⟨hg, rfl⟩ := h
  exact ⟨hs.prompting.mpr (by simp [hg, Handler.Holds]), rfl⟩

theorem giveUp_step (hs : Owned s) (h : step s .giveUp = some t) :
    s.phase = .idle ∧ t.phase = .abandoned ∧ ¬t.handler.Holds := by
  simp only [step, Option.ite_none_right_eq_some, Option.some.injEq] at h
  obtain ⟨⟨-, hidle⟩, rfl⟩ := h
  refine ⟨hidle, rfl, fun hh => ?_⟩
  have hprompting := hs.prompting.mpr hh
  rw [hidle] at hprompting
  cases hprompting

/-- A hop that was given up on never prompts or learns, a prompt is never cut short before its key
is learned, and a phase that is abandoned stays so. -/
theorem abandoned_hop (h : run es = some s) :
    (∀ pre post, es = pre ++ .giveUp :: post → .prompt ∉ post ∧ ∀ ok, .learn ok ∉ post) ∧
    (∀ pre mid post, es = pre ++ .prompt :: (mid ++ .giveUp :: post) →
      .answer false ∈ mid ∨ ∃ ok, .learn ok ∈ mid) ∧
    (s.phase = .abandoned → ∀ later t, trace step s later = some t → t.phase = .abandoned) := by
  refine ⟨?_, ?_, ?_⟩
  · rintro pre post rfl
    obtain ⟨u, hpre, hpost⟩ := trace_append.mp h
    obtain ⟨v, hgive, hpost⟩ := trace_cons.mp hpost
    have hv := (giveUp_step (owned_run hpre) hgive).2
    obtain ⟨-, hall⟩ := trace_forall (fun _ _ _ hs h => abandoned_step hs h) hv hpost
    exact ⟨fun hm => (hall _ hm).1 rfl, fun ok hm => (hall _ hm).2 ok rfl⟩
  · rintro pre mid post rfl
    obtain ⟨u, hpre, hrest⟩ := trace_append.mp h
    obtain ⟨v, hprompt, hrest⟩ := trace_cons.mp hrest
    obtain ⟨w, hmid, hrest⟩ := trace_append.mp hrest
    obtain ⟨x, hgive, -⟩ := trace_cons.mp hrest
    by_contra hnot
    rw [not_or, not_exists] at hnot
    have hv := prompt_step (owned_run hpre) hprompt
    have hw : w.phase = .prompting ∧ (w.handler = .confirming ∨ w.handler = .learning) := by
      refine trace_invariant
        (P := fun u => u.phase = .prompting ∧ (u.handler = .confirming ∨ u.handler = .learning))
        (Q := fun e => e ≠ .answer false ∧ ∀ ok, e ≠ .learn ok)
        (fun _ _ _ hs he h => open_step hs he h) ⟨hv.1, .inl hv.2⟩ ?_ hmid
      rintro e he
      constructor
      · rintro rfl
        exact hnot.1 he
      · rintro ok rfl
        exact hnot.2 ok he
    simp [step, hw.1] at hgive
  · intro ha later t hlater
    have hs : ¬s.handler.Holds := fun hh => by
      rw [← (owned_run h).prompting, ha] at hh
      cases hh
    exact (trace_forall (fun _ _ _ hs h => abandoned_step hs h) ⟨ha, hs⟩ hlater).1.1

/-- A connection that was given up on while the server's key was still to come. -/
theorem abandoned_hop_late :
    let es : List Event := [.start, .sleep, .wake, .same, .giveUp, .check true, .refused]
    (run es).isSome ∧ ∀ pre post, es = pre ++ .giveUp :: post → .prompt ∉ post := by
  intro es
  obtain ⟨s, hs⟩ := Option.isSome_iff_exists.mp (by decide : (run es).isSome)
  exact ⟨by decide, fun pre post hcut => ((abandoned_hop hs).1 pre post hcut).1⟩

end Safety

/-- A whole sleep began after the last prompt had finished, or none was opened. -/
def Rested (past : List Event) : Prop :=
  .prompt ∉ past ∨ ∃ before since, past = before ++ .sleep :: since ∧ .wake ∈ since ∧ .count ∉ since

/-- No prompt finishes once the timer has found the count to be the same. -/
def Quiet (past : List Event) : Prop :=
  ∀ before since, past = before ++ .same :: since → .same ∉ since → .count ∉ since

/-- What the timer has seen is a count from before its sleep. -/
def Saw (before : List Event) (s : HopState) : Prop :=
  ∃ n ≤ before.count .count, s.seen = n % 2 ^ 64

/-- Where the timer is in the past. -/
def Slept (past : List Event) (s : HopState) : Prop :=
  match s.timer with
  | .starting | .gaveUp | .connected => True
  | .resting => Saw past s
  | .sleeping => ∃ before since, past = before ++ .sleep :: since ∧ Saw before s
  | .woken => ∃ before since, past = before ++ .sleep :: since ∧ .wake ∈ since ∧ Saw before s
  | .claiming => ∃ before mid since, past = before ++ .sleep :: (mid ++ .same :: since) ∧
      .wake ∈ mid ∧ .sleep ∉ since ∧ .same ∉ since ∧ Saw before s ∧
      s.seen = (before ++ .sleep :: mid).count .count % 2 ^ 64

section Timing

variable {s t : HopState} {e : Event} {es past : List Event}

/-- The count is that of the prompts that finished. -/
theorem promptsDone_step (hs : s.promptsDone = past.count .count % 2 ^ 64)
    (h : step s e = some t) : t.promptsDone = (past ++ [e]).count .count % 2 ^ 64 := by
  cases e <;> simp only [step, Option.ite_none_right_eq_some, Option.some.injEq] at h <;>
    obtain ⟨hg, rfl⟩ := h <;> simp [List.count_append, hs]

theorem Saw.mono {before : List Event} (h : Saw before s) (hs : t.seen = s.seen)
    (hle : before.count .count ≤ past.count .count) : Saw past t := by
  obtain ⟨n, hn, hseen⟩ := h
  exact ⟨n, by omega, hs.trans hseen⟩

theorem saw_now (hc : s.promptsDone = past.count .count % 2 ^ 64) (ht : t.seen = s.promptsDone)
    (e : Event) : Saw (past ++ [e]) t := by
  refine ⟨past.count .count, ?_, ht.trans hc⟩
  rw [List.count_append]
  omega

/-- Nothing changes for the timer while the handler goes on. -/
theorem Slept.frame (hs : Slept past s) (ht : t.timer = s.timer) (hseen : t.seen = s.seen)
    (he : e ≠ .sleep ∧ e ≠ .same) : Slept (past ++ [e]) t := by
  have hsaw {before : List Event} (h : Saw before s) : Saw before t := h.mono hseen (Nat.le_refl _)
  rw [Slept, ht]
  rw [Slept] at hs
  split
  · trivial
  · trivial
  · trivial
  · rename_i htimer
    rw [htimer] at hs
    exact hs.mono hseen (by simp [List.count_append])
  · rename_i htimer
    rw [htimer] at hs
    obtain ⟨before, since, rfl, hs⟩ := hs
    exact ⟨before, since ++ [e], by simp, hsaw hs⟩
  · rename_i htimer
    rw [htimer] at hs
    obtain ⟨before, since, rfl, hw, hs⟩ := hs
    exact ⟨before, since ++ [e], by simp, List.mem_append_left _ hw, hsaw hs⟩
  · rename_i htimer
    rw [htimer] at hs
    obtain ⟨before, mid, since, rfl, hw, hsleep, hsame, hs, heq⟩ := hs
    refine ⟨before, mid, since ++ [e], by simp, hw, ?_, ?_, hsaw hs, hseen.trans heq⟩
    · simp [hsleep, Ne.symm he.1]
    · simp [hsame, Ne.symm he.2]

theorem Slept.step (hs : Slept past s) (hc : s.promptsDone = past.count .count % 2 ^ 64)
    (h : step s e = some t) : Slept (past ++ [e]) t := by
  cases e <;> simp only [Hop.step, Option.ite_none_right_eq_some, Option.some.injEq] at h <;>
    obtain ⟨hg, rfl⟩ := h
  case start => exact saw_now hc rfl _
  case sleep =>
    rw [Slept, hg] at hs
    exact ⟨past, [], rfl, hs⟩
  case wake =>
    rw [Slept, hg] at hs
    obtain ⟨before, since, rfl, hs⟩ := hs
    exact ⟨before, since ++ [.wake], by simp, by simp, hs⟩
  case connect => trivial
  case changed => exact saw_now hc rfl _
  case same =>
    rw [Slept, hg.1] at hs
    obtain ⟨before, since, rfl, hw, hs⟩ := hs
    exact ⟨before, since, [], by simp, hw, List.not_mem_nil, List.not_mem_nil, hs, hg.2 ▸ hc⟩
  case giveUp => trivial
  case again =>
    rw [Slept, hg.1] at hs
    obtain ⟨before, mid, since, rfl, -, -, -, hs, -⟩ := hs
    exact hs.mono rfl (by simp [List.count_append])
  all_goals exact hs.frame rfl rfl (by simp)

/-- A prompt is counted after it was opened. -/
def Opened (past : List Event) (s : HopState) : Prop :=
  .count ∈ past ∨ s.handler.Holds ∧ s.handler ≠ .claimed → .prompt ∈ past

theorem Opened.step (hs : Opened past s) (h : step s e = some t) : Opened (past ++ [e]) t := by
  rw [Opened] at hs
  cases e <;> simp only [Hop.step, Option.ite_none_right_eq_some, Option.some.injEq] at h <;>
    obtain ⟨hg, rfl⟩ := h <;> rw [Opened] <;> grind [Handler.Holds]

/-- What is known of a run. -/
structure Known (past : List Event) (s : HopState) : Prop where
  promptsDone : s.promptsDone = past.count .count % 2 ^ 64
  slept : Slept past s
  opened : Opened past s

theorem known_run (h : run es = some s) : Known es s := by
  have hstart : Known [] {} := by
    constructor
    · rfl
    · trivial
    · simp [Opened, Handler.Holds]
  refine trace_history (P := Known) (fun past s e t hs h => ?_) hstart h
  exact ⟨promptsDone_step hs.promptsDone h, hs.slept.step hs.promptsDone h, hs.opened.step h⟩

theorem not_mem_of_count_eq {b since : List Event}
    (h : (b ++ .sleep :: since).count .count ≤ b.count .count) : .count ∉ since := by
  intro hm
  have hpos : 0 < since.count .count := List.count_pos_iff.mpr hm
  simp [List.count_append] at h
  omega

/-- Where the timer gives up, a whole sleep began after the last prompt had finished exactly if no
prompt finished after it loaded the count, as long as the count has not wrapped. -/
theorem rested_iff_quiet (h : run es = some s) {pre post : List Event}
    (hcut : es = pre ++ .giveUp :: post) (hfew : pre.count .count < 2 ^ 64) :
    Rested pre ↔ Quiet pre := by
  subst hcut
  obtain ⟨u, hpre, hrest⟩ := trace_append.mp h
  obtain ⟨v, hgive, -⟩ := trace_cons.mp hrest
  have hknown := known_run hpre
  have hslept := hknown.slept
  simp only [step, Option.ite_none_right_eq_some, Option.some.injEq] at hgive
  rw [Slept, hgive.1.1] at hslept
  obtain ⟨before, mid, since, rfl, hwake, hsleep, hsame, ⟨n, hn, hsaw⟩, hseen⟩ := hslept
  have hpast : before ++ .sleep :: (mid ++ .same :: since) =
      (before ++ .sleep :: mid) ++ .same :: since := by simp
  have hquiet : Quiet (before ++ .sleep :: (mid ++ .same :: since)) ↔ .count ∉ since := by
    constructor
    · exact fun hq => hq _ since hpast hsame
    · rintro hnot early late hcut hlate
      rw [hpast] at hcut
      rcases Log.append_cons_eq_cut.mp hcut with ⟨x, -, rfl⟩ | ⟨-, -, rfl⟩ | ⟨x, -, rfl⟩
      · exact absurd (by simp) hlate
      · exact hnot
      · exact absurd (by simp) hsame
  rw [hquiet]
  constructor
  · rintro (hnone | ⟨early, late, hcut, -, hcount⟩)
    · exact fun hm => hnone (hknown.opened (.inl (by simp [hm])))
    · rw [hpast] at hcut
      rcases Log.append_cons_eq_cut.mp hcut with ⟨x, -, rfl⟩ | ⟨-, he, -⟩ | ⟨x, -, rfl⟩
      · exact fun hm => hcount (by simp [hm])
      · cases he
      · exact absurd (by simp) hsleep
  · intro hnot
    -- The count was the same when it was loaded again, so no prompt finished during the sleep.
    have hmid : .count ∉ mid := by
      apply not_mem_of_count_eq (b := before)
      rw [hpast, List.count_append] at hfew
      rw [Nat.mod_eq_of_lt (by omega)] at hseen
      have hle : before.count .count ≤ (before ++ .sleep :: mid).count .count := by
        rw [List.count_append]
        omega
      rw [hsaw, Nat.mod_eq_of_lt (by omega)] at hseen
      omega
    exact .inr ⟨before, mid ++ .same :: since, rfl, by simp [hwake], by simp [hmid, hnot]⟩

/-- Two prompts' worth of waiting. -/
theorem rested_iff_quiet_once :
    let pre : List Event := [.start, .sleep, .check true, .claim, .prompt, .answer true, .learn true,
      .count, .release, .wake, .changed, .sleep, .wake, .same]
    (run (pre ++ [.giveUp])).isSome ∧ (Rested pre ↔ Quiet pre) := by
  intro pre
  obtain ⟨s, hs⟩ := Option.isSome_iff_exists.mp (by decide : (run (pre ++ [.giveUp])).isSome)
  exact ⟨by decide, rested_iff_quiet hs rfl (by decide)⟩

/-- The timer loads the count while a prompt is open, and gives up right after it was answered. -/
theorem not_rested : ¬∀ (es : List Event) (s : HopState), run es = some s →
    ∀ pre post, es = pre ++ .giveUp :: post → Rested pre := by
  intro h
  let pre : List Event := [.start, .sleep, .check true, .claim, .prompt, .wake, .same, .answer true,
    .learn true, .count, .release]
  obtain ⟨s, hs⟩ := Option.isSome_iff_exists.mp (by decide : (run (pre ++ [.giveUp])).isSome)
  obtain hnone | ⟨before, since, hcut, -, hcount⟩ := h _ s hs pre [] rfl
  · exact absurd (by decide) hnone
  · rcases before with _ | ⟨x, _ | ⟨y, before⟩⟩
    · exact absurd (List.cons.inj hcut).1 (by decide)
    · obtain rfl := (List.cons.inj (List.cons.inj hcut).2).2
      exact absurd (by decide) hcount
    · have hm : Event.sleep ∈ pre.drop 2 := by simp [hcut]
      exact absurd hm (by decide)

end Timing

end MultiAi.Hop
