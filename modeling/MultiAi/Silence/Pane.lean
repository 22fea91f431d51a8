import Mathlib.Algebra.Order.Monoid.Prod
import Mathlib.Algebra.Order.Ring.Nat
import MultiAi.Library.Budget
import MultiAi.Panes.Story

/-! # A pane whose screen does not change

What is left to report of a pane that is dumped again and again, with the same rules, title
and screen: an exit, an agent that appeared, and two states. When two of its dumps, the
stable time of its agent apart, and all between them report nothing, nothing is left.
-/

namespace MultiAi

open Machine

/-- Exits, appearances and other states. -/
abbrev Tally := ℕ × ℕ × ℕ

theorem Tally.nonneg (x : Tally) : 0 ≤ x := ⟨x.1.zero_le, x.2.1.zero_le, x.2.2.zero_le⟩

/-- What is left when nothing was is nothing. -/
theorem Tally.eq_zero {x y : Tally} (h : x + y ≤ 0) : x = 0 ∧ y = 0 := by
  constructor
  · exact ((le_add_of_nonneg_right y.nonneg).trans h).antisymm x.nonneg
  · exact ((le_add_of_nonneg_left x.nonneg).trans h).antisymm y.nonneg

/-- What one report counts as. -/
def AgentState.price : AgentState → Tally
  | .exited => (1, 0, 0)
  | .unknown => (0, 1, 0)
  | _ => (0, 0, 1)

namespace PaneMemory

variable (lib : ScrapeLib) (rules : CompiledRules) (info : PaneInfo) (screen : String)

/-- The states that are left to report of an observed agent. -/
def statesLeft (agent : String) (history : Option PaneScrape) : ℕ :=
  match rules.rule agent, history with
  | none, _ => 0
  | some _, none => 1
  | some rule, some p =>
    if p.hash ≠ lib.hashScreen (rule.clean screen) then 2
    else
      match ScrapeTracker.settledState rule (rule.clean screen) with
      | none => 0
      | some state => if p.emitted = some state then 0 else 1

/-- The agent of a binding goes on being observed. -/
def staysBound (b : Binding) : Bool := b.fromHook || rules.fits b.agent info screen

/-- What is left to report of a pane. -/
def left (m : PaneMemory) : Tally :=
  match m.binding with
  | some b =>
    if staysBound rules info screen b then
      (0, 0, statesLeft lib rules screen b.agent m.history)
    else (1, 1, 1)
  | none =>
    match rules.identify info.title info.command screen with
    | none => 0
    | some agent => if m.held then 0 else (0, 1, statesLeft lib rules screen agent m.history)

theorem statesLeft_le (agent : String) (history : Option PaneScrape) :
    statesLeft lib rules screen agent history ≤ 2 := by
  unfold statesLeft
  split
  · omega
  · omega
  · split_ifs
    · omega
    · split
      · omega
      · split_ifs <;> omega

theorem statesLeft_none (agent : String) : statesLeft lib rules screen agent none ≤ 1 := by
  unfold statesLeft
  split <;> simp_all

/-- A screen reports a state at most, and it is left after it no more. -/
theorem statesLeft_observe (agent : String) (history : Option PaneScrape) (nowMs : ℕ) :
    (observe lib rules agent history screen nowMs).2.toList.length +
        statesLeft lib rules screen agent (observe lib rules agent history screen nowMs).1 ≤
      statesLeft lib rules screen agent history := by
  have hcase := observeCase lib rules agent history screen nowMs
  generalize observe lib rules agent history screen nowMs = r at hcase
  cases hcase with
  | unruled hr => simp [statesLeft, hr]
  | first hr hh =>
    subst hh
    simp only [statesLeft, hr]
    simp only [ne_eq, not_true_eq_false, if_false]
    split <;> simp
  | @changed rule p hr hh hne =>
    subst hh
    simp only [statesLeft, hr, hne, ne_eq, not_true_eq_false, if_false, not_false_eq_true, if_true]
    by_cases he : p.emitted = some .working
    · rw [if_pos he]
      split <;> simp
      split_ifs <;> omega
    · rw [if_neg he]
      split <;> simp
      split_ifs <;> omega
  | young hr hh heq hy =>
    subst hh
    simp
  | settled hr hh heq hstable hs =>
    subst hh
    simp only [statesLeft, hr, heq, hs, ne_eq, not_true_eq_false, if_false, if_true]
    split_ifs <;> simp
  | idle hr hh heq hstable hs =>
    subst hh
    simp [statesLeft, hr, heq, hs]

variable {lib rules info screen}

theorem left_le (m : PaneMemory) : m.left lib rules info screen ≤ (1, 1, 2) := by
  unfold left
  have hstates := statesLeft_le lib rules screen
  split
  · split_ifs
    · exact ⟨by simp, by simp, hstates _ _⟩
    · exact ⟨le_rfl, le_rfl, by simp⟩
  · split
    · exact ⟨by simp, by simp, by simp⟩
    · split_ifs
      · exact ⟨by simp, by simp, by simp⟩
      · exact ⟨by simp, le_rfl, hstates _ _⟩

theorem left_unbound {m : PaneMemory} (hb : m.binding = none) (hh : m.history = none) :
    m.left lib rules info screen ≤ (0, 1, 1) := by
  have hnone := statesLeft_none lib rules screen
  rw [left, hb, hh]
  simp only
  split
  · exact ⟨le_rfl, by simp, by simp⟩
  · split_ifs
    · exact ⟨le_rfl, by simp, by simp⟩
    · exact ⟨le_rfl, le_rfl, hnone _⟩

/-- An observed agent is reported in a state of its own. -/
theorem price_observe {agent : String} {history : Option PaneScrape} {nowMs : ℕ}
    {state : AgentState} (h : (observe lib rules agent history screen nowMs).2 = some state) :
    state.price = (0, 0, 1) := by
  have hcase := observeCase lib rules agent history screen nowMs
  generalize observe lib rules agent history screen nowMs = r at hcase h
  cases hcase with
  | changed =>
    simp only at h
    split_ifs at h
    obtain rfl := Option.some.inj h
    rfl
  | settled _ _ _ _ hs =>
    simp only at h
    split_ifs at h
    obtain rfl := Option.some.inj h
    rcases settledState_mem hs with rfl | rfl <;> rfl
  | _ => cases h

/-- What some reports count as. -/
def paid (out : List Scraped) : Tally := cost (fun x => x.2.price) out

theorem paid_reports (agent : String) (history : Option PaneScrape) (nowMs : ℕ) :
    paid (reports agent (observe lib rules agent history screen nowMs).2) =
      (0, 0, (observe lib rules agent history screen nowMs).2.toList.length) := by
  cases h : (observe lib rules agent history screen nowMs).2 with
  | none => rfl
  | some state => simp [paid, reports, price_observe h]

/-- What a dump reports was left before, and is not left after it. -/
theorem paid_dump (m : PaneMemory) (nowMs : ℕ) :
    paid (m.step lib (.dump rules info screen nowMs)).2 +
        (m.step lib (.dump rules info screen nowMs)).1.left lib rules info screen ≤
      m.left lib rules info screen := by
  have hcase := dumpCase lib m rules info screen nowMs
  generalize m.step lib (.dump rules info screen nowMs) = r at hcase
  have hobserve := fun agent => statesLeft_observe lib rules screen agent m.history nowMs
  have hfits : ∀ {agent}, rules.identify info.title info.command screen = some agent →
      rules.fits agent info screen = true := by
    intro agent hf
    simp [CompiledRules.fits, hf]
  cases hcase with
  | @hook b hb hh =>
    simp only [left, hb, staysBound, hh, Bool.true_or, if_true, paid_reports]
    exact ⟨le_rfl, le_rfl, hobserve b.agent⟩
  | @kept b hb hh hfit =>
    simp only [left, hb, staysBound, hfit, Bool.or_true, if_true, paid_reports]
    exact ⟨le_rfl, le_rfl, hobserve b.agent⟩
  | @missed b hb hh hfit hx =>
    simp only [left, hb, staysBound, hh, hfit, Bool.or_self]
    exact le_rfl
  | @left b hb hh hfit hx =>
    have hexit : paid [(b.agent, AgentState.exited)] = (1, 0, 0) := rfl
    have hleft : m.left lib rules info screen = (1, 1, 1) := by
      simp [left, hb, staysBound, hh, hfit]
    rw [hexit, hleft]
    exact add_le_add_right (left_unbound rfl rfl) (1, 0, 0)
  | nothing hb hf => simp [left, hb, hf, paid]
  | held hb hf hh => simp [left, hb, hf, hh, paid]
  | @appeared agent hb hf hh =>
    have happeared : paid ((agent, AgentState.unknown) ::
        reports agent (observe lib rules agent m.history screen nowMs).2) =
          (0, 1, (observe lib rules agent m.history screen nowMs).2.toList.length) := by
      rw [paid, cost_cons, ← paid, paid_reports]
      simp [AgentState.price]
    simp only [left, hb, hf, hh, staysBound, hfits hf, Bool.or_true, if_true, Bool.false_eq_true,
      if_false, happeared]
    exact ⟨le_rfl, le_rfl, hobserve agent⟩

variable (lib screen) in
/-- The screen of an observed agent is in the history, since `t` or longer. -/
def Remembers (rule : CompiledRule) (t : ℕ) (history : Option PaneScrape) : Prop :=
  ∃ h, history = some h ∧ h.hash = lib.hashScreen (rule.clean screen) ∧ h.stableSinceMs ≤ t

variable (lib rules info screen) in
/-- The pane was dumped at time `t`: the agent it shows was observed, the one it no longer
shows was missed. -/
def Seen (t : ℕ) (m : PaneMemory) : Prop :=
  ∀ b, m.binding = some b →
    (staysBound rules info screen b = true → ∀ rule, rules.rule b.agent = some rule →
      Remembers lib screen rule t m.history) ∧
    (staysBound rules info screen b = false → 1 ≤ b.misses)

theorem seen_congr {t : ℕ} {m m' : PaneMemory} (hb : m'.binding = m.binding)
    (hs : m'.history = m.history) (h : Seen lib rules info screen t m) :
    Seen lib rules info screen t m' := by
  intro b hb'
  rw [hs]
  exact h b (hb ▸ hb')

/-- An observed screen is in the history, since then or longer. -/
theorem remembers_observe {agent : String} {history : Option PaneScrape} {nowMs : ℕ}
    (hsince : ∀ h, history = some h → h.stableSinceMs ≤ nowMs) {rule : CompiledRule}
    (hr : rules.rule agent = some rule) :
    Remembers lib screen rule nowMs (observe lib rules agent history screen nowMs).1 := by
  have hcase := observeCase lib rules agent history screen nowMs
  generalize observe lib rules agent history screen nowMs = r at hcase
  cases hcase with
  | unruled hr' => cases hr.symm.trans hr'
  | first hr' | changed hr' =>
    obtain rfl := Option.some.inj (hr.symm.trans hr')
    exact ⟨_, rfl, rfl, le_rfl⟩
  | young hr' hh heq | settled hr' hh heq | idle hr' hh heq =>
    obtain rfl := Option.some.inj (hr.symm.trans hr')
    have hle := hsince _ hh
    exact ⟨_, rfl, heq, hle⟩

/-- A screen that is in the history keeps its time there. -/
theorem remembers_observe_again {agent : String} {history : Option PaneScrape} {nowMs t : ℕ}
    {rule : CompiledRule} (hr : rules.rule agent = some rule)
    (hseen : Remembers lib screen rule t history) :
    Remembers lib screen rule t (observe lib rules agent history screen nowMs).1 := by
  obtain ⟨h, rfl, hhash, hle⟩ := hseen
  have hcase := observeCase lib rules agent (some h) screen nowMs
  generalize observe lib rules agent (some h) screen nowMs = r at hcase
  cases hcase with
  | unruled hr' => cases hr.symm.trans hr'
  | first hr' hh => cases hh
  | changed hr' hh hne =>
    obtain rfl := Option.some.inj (hr.symm.trans hr')
    obtain rfl := Option.some.inj hh
    exact absurd hhash hne
  | young hr' hh | settled hr' hh | idle hr' hh =>
    obtain rfl := Option.some.inj hh
    exact ⟨_, rfl, hhash, hle⟩

theorem statesLeft_eq_zero {agent : String} {history : Option PaneScrape} {nowMs t : ℕ}
    (hseen : ∀ rule, rules.rule agent = some rule →
      Remembers lib screen rule t history ∧ rule.stableMs ≤ nowMs - t)
    (hsilent : (observe lib rules agent history screen nowMs).2 = none) :
    statesLeft lib rules screen agent (observe lib rules agent history screen nowMs).1 = 0 := by
  have hcase := observeCase lib rules agent history screen nowMs
  generalize observe lib rules agent history screen nowMs = r at hcase hsilent
  cases hcase with
  | unruled hr => simp [statesLeft, hr]
  | first hr hh =>
    obtain ⟨⟨h, hsome, -⟩, -⟩ := hseen _ hr
    cases hh.symm.trans hsome
  | changed hr hh hne =>
    obtain ⟨⟨h, hsome, hhash, -⟩, -⟩ := hseen _ hr
    obtain rfl := Option.some.inj (hh.symm.trans hsome)
    exact absurd hhash hne
  | young hr hh _ hy =>
    obtain ⟨⟨h, hsome, -, hle⟩, hstable⟩ := hseen _ hr
    obtain rfl := Option.some.inj (hh.symm.trans hsome)
    omega
  | settled hr hh heq hstable hs => simp [statesLeft, hr, heq, hs]
  | idle hr hh heq hstable hs => simp [statesLeft, hr, heq, hs]

theorem reports_eq_nil {agent : String} {state : Option AgentState} :
    reports agent state = [] ↔ state = none := by
  cases state <;> simp [reports]

/-- A dump is what `Seen` says of it. -/
theorem seen_dump {m : PaneMemory} {nowMs : ℕ}
    (hsince : ∀ h, m.history = some h → h.stableSinceMs ≤ nowMs) :
    Seen lib rules info screen nowMs (m.step lib (.dump rules info screen nowMs)).1 := by
  have hcase := dumpCase lib m rules info screen nowMs
  generalize m.step lib (.dump rules info screen nowMs) = r at hcase
  intro b' hb'
  cases hcase with
  | @hook b hb hh =>
    obtain rfl := Option.some.inj (hb.symm.trans hb')
    exact ⟨fun _ rule hr => remembers_observe hsince hr, fun hs => by simp [staysBound, hh] at hs⟩
  | @kept b hb hh hfit =>
    obtain rfl := Option.some.inj hb'
    exact ⟨fun _ rule hr => remembers_observe hsince hr, fun hs => by simp [staysBound, hfit] at hs⟩
  | @missed b hb hh hfit hx =>
    obtain rfl := Option.some.inj hb'
    exact ⟨fun hs => by simp [staysBound, hh, hfit] at hs, fun _ => Nat.le_add_left 1 _⟩
  | left => cases hb'
  | nothing hb => cases hb.symm.trans hb'
  | held hb => cases hb.symm.trans hb'
  | @appeared agent hb hf hh =>
    obtain rfl := Option.some.inj hb'
    have hfit : rules.fits agent info screen = true := by simp [CompiledRules.fits, hf]
    exact ⟨fun _ rule hr => remembers_observe hsince hr, fun hs => by simp [staysBound, hfit] at hs⟩

/-- A dump that reports nothing leaves `Seen` as it is. -/
theorem seen_dump_again {m : PaneMemory} {t nowMs : ℕ} (hseen : Seen lib rules info screen t m)
    (hsilent : (m.step lib (.dump rules info screen nowMs)).2 = []) :
    Seen lib rules info screen t (m.step lib (.dump rules info screen nowMs)).1 := by
  have hcase := dumpCase lib m rules info screen nowMs
  generalize m.step lib (.dump rules info screen nowMs) = r at hcase hsilent
  intro b' hb'
  cases hcase with
  | @hook b hb hh =>
    obtain rfl := Option.some.inj (hb.symm.trans hb')
    have hstays : staysBound rules info screen b = true := by simp [staysBound, hh]
    exact ⟨fun _ rule hr => remembers_observe_again hr ((hseen b hb).1 hstays rule hr),
      fun hs => by simp [hstays] at hs⟩
  | @kept b hb hh hfit =>
    obtain rfl := Option.some.inj hb'
    have hstays : staysBound rules info screen b = true := by simp [staysBound, hfit]
    exact ⟨fun _ rule hr => remembers_observe_again hr ((hseen b hb).1 hstays rule hr),
      fun hs => by simp [staysBound, hfit] at hs⟩
  | @missed b hb hh hfit hx =>
    obtain rfl := Option.some.inj hb'
    exact ⟨fun hs => by simp [staysBound, hh, hfit] at hs, fun _ => Nat.le_add_left 1 _⟩
  | left => cases hsilent
  | nothing hb => cases hb.symm.trans hb'
  | held hb => cases hb.symm.trans hb'
  | appeared => cases hsilent

/-- Two dumps, the stable time of the agent apart and silent after the first, leave nothing. -/
theorem left_eq_zero {m : PaneMemory} {t nowMs : ℕ} (hseen : Seen lib rules info screen t m)
    (hstable : ∀ b rule, (m.step lib (.dump rules info screen nowMs)).1.binding = some b →
      rules.rule b.agent = some rule → rule.stableMs ≤ nowMs - t)
    (hsilent : (m.step lib (.dump rules info screen nowMs)).2 = []) :
    (m.step lib (.dump rules info screen nowMs)).1.left lib rules info screen = 0 := by
  have hcase := dumpCase lib m rules info screen nowMs
  generalize m.step lib (.dump rules info screen nowMs) = r at hcase hsilent hstable
  cases hcase with
  | @hook b hb hh =>
    have hstays : staysBound rules info screen b = true := by simp [staysBound, hh]
    have hzero := statesLeft_eq_zero (fun rule hr => ⟨(hseen b hb).1 hstays rule hr,
      hstable b rule hb hr⟩) (reports_eq_nil.mp hsilent)
    simp [left, hb, hstays, hzero]
  | @kept b hb hh hfit =>
    have hstays : ∀ n, staysBound rules info screen { b with misses := n } = true := by
      simp [staysBound, hfit]
    have hzero := statesLeft_eq_zero (fun rule hr => ⟨(hseen b hb).1 (hstays b.misses) rule hr,
      hstable { b with misses := 0 } rule rfl hr⟩) (reports_eq_nil.mp hsilent)
    simp [left, hstays, hzero]
  | @missed b hb hh hfit hx =>
    have hmisses := (hseen b hb).2 (by simp [staysBound, hh, hfit])
    have htwo : missesToExit = 2 := rfl
    omega
  | left => cases hsilent
  | nothing hb hf => simp [left, hb, hf]
  | held hb hf hh => simp [left, hb, hf, hh]
  | appeared => cases hsilent

end PaneMemory

end MultiAi
