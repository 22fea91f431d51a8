import MultiAi.Restart.Life
import MultiAi.Silence.Falls

/-! # A pane that a new server meets

The hook records that are read again bind the pane or hold it, or the first dump finds its
agent. From then on the unchanged screen shows one state, or none.
-/

namespace MultiAi

open Std Machine Server

/-- The state that the screen of an agent settles in. -/
def CompiledRules.settles (rules : CompiledRules) (agent screen : String) : Option AgentState :=
  (rules.rule agent).bind fun rule => ScrapeTracker.settledState rule (rule.clean screen)

namespace PaneMemory

variable {lib : ScrapeLib} {rules : CompiledRules} {info : PaneInfo} {screen agent : String}
  {nowMs t : ℕ} {m : PaneMemory}

variable (lib rules screen agent) in
/-- The history of an agent knows no other screen. -/
def Same (history : Option PaneScrape) : Prop :=
  ∀ h rule, history = some h → rules.rule agent = some rule →
    h.hash = lib.hashScreen (rule.clean screen)

variable (nowMs) in
/-- The same screen again reports the state it settles in, or nothing. -/
theorem observe_same {history : Option PaneScrape} (h : Same lib rules screen agent history) :
    Same lib rules screen agent (observe lib rules agent history screen nowMs).1 ∧
      ∀ state, (observe lib rules agent history screen nowMs).2 = some state →
        rules.settles agent screen = some state := by
  have hcase := observeCase lib rules agent history screen nowMs
  generalize observe lib rules agent history screen nowMs = r at hcase
  cases hcase with
  | unruled => exact ⟨h, nofun⟩
  | first hr =>
    refine ⟨fun x rule hx hrule => ?_, nofun⟩
    obtain rfl := Option.some.inj hx
    obtain rfl := Option.some.inj (hr.symm.trans hrule)
    rfl
  | changed hr hp hne => exact absurd (h _ _ hp hr) hne
  | young _ hp =>
    subst hp
    exact ⟨h, nofun⟩
  | settled hr hp hhash _ hs =>
    refine ⟨fun x rule hx hrule => ?_, fun state hstate => ?_⟩
    · obtain rfl := Option.some.inj hx
      have hsame := h _ _ hp hrule
      exact hsame
    · split_ifs at hstate
      obtain rfl := Option.some.inj hstate
      rw [CompiledRules.settles, hr]
      exact hs
  | idle hr hp =>
    refine ⟨fun x rule hx hrule => ?_, nofun⟩
    obtain rfl := Option.some.inj hx
    have hsame := h _ _ hp hrule
    exact hsame

variable (rules info screen agent) in
/-- The pane is bound to an agent that stays. -/
def Bound (m : PaneMemory) : Prop :=
  ∃ b, m.binding = some b ∧ b.agent = agent ∧ staysBound rules info screen b = true

variable (lib nowMs) in
/-- A dump of a bound pane observes its agent. -/
theorem Bound.dump (h : Bound rules info screen agent m) :
    Bound rules info screen agent (m.step lib (.dump rules info screen nowMs)).1 ∧
      (m.step lib (.dump rules info screen nowMs)).1.history =
        (observe lib rules agent m.history screen nowMs).1 ∧
      (m.step lib (.dump rules info screen nowMs)).2 =
        reports agent (observe lib rules agent m.history screen nowMs).2 := by
  obtain ⟨b, hb, rfl, hstays⟩ := h
  have hcase := dumpCase lib m rules info screen nowMs
  generalize m.step lib (.dump rules info screen nowMs) = r at hcase
  cases hcase with
  | hook hb' =>
    obtain rfl := Option.some.inj (hb.symm.trans hb')
    exact ⟨⟨b, hb, rfl, hstays⟩, rfl, rfl⟩
  | kept hb' _ hfit =>
    obtain rfl := Option.some.inj (hb.symm.trans hb')
    exact ⟨⟨_, rfl, rfl, by simp [staysBound, hfit]⟩, rfl, rfl⟩
  | missed hb' hh hfit | left hb' hh hfit =>
    obtain rfl := Option.some.inj (hb.symm.trans hb')
    simp [staysBound, hh, hfit] at hstays
  | nothing hb' | held hb' | appeared hb' => cases hb.symm.trans hb'

variable (lib rules info screen agent) in
/-- The pane is bound, and only this screen was seen of it. -/
structure Watches (m : PaneMemory) : Prop where
  bound : Bound rules info screen agent m
  same : Same lib rules screen agent m.history

theorem Watches.dump (h : Watches lib rules info screen agent m) :
    Watches lib rules info screen agent (m.step lib (.dump rules info screen nowMs)).1 ∧
      ∀ x ∈ (m.step lib (.dump rules info screen nowMs)).2,
        rules.settles agent screen = some x.2 := by
  obtain ⟨hbound, hhistory, hout⟩ := h.bound.dump lib nowMs
  obtain ⟨hsame, hsettles⟩ := observe_same nowMs h.same
  refine ⟨⟨hbound, hhistory ▸ hsame⟩, ?_⟩
  rintro x hx
  rw [hout, reports, Option.mem_toList] at hx
  obtain ⟨state, hstate, rfl⟩ := Option.map_eq_some_iff.mp hx
  exact hsettles state hstate

variable (rules info screen) in
/-- No agent is bound, and no dump binds one. -/
def Free (m : PaneMemory) : Prop :=
  m.binding = none ∧ (rules.identify info.title info.command screen = none ∨ m.held = true)

theorem Free.dump (h : Free rules info screen m) :
    Free rules info screen (m.step lib (.dump rules info screen nowMs)).1 ∧
      (m.step lib (.dump rules info screen nowMs)).2 = [] := by
  obtain ⟨hb, hfree⟩ := h
  have hcase := dumpCase lib m rules info screen nowMs
  generalize m.step lib (.dump rules info screen nowMs) = r at hcase
  cases hcase with
  | hook hb' | kept hb' | missed hb' | left hb' => cases hb.symm.trans hb'
  | nothing _ hf => exact ⟨⟨hb, .inl hf⟩, rfl⟩
  | held _ _ hh => exact ⟨⟨hb, .inr hh⟩, rfl⟩
  | appeared _ hf hh =>
    rcases hfree with hnone | hheld
    · cases hnone.symm.trans hf
    · cases hheld.symm.trans hh

variable (lib rules info screen agent) in
/-- The pane was bound and its screen observed for the first time at `t`. -/
structure Fresh (t : ℕ) (m : PaneMemory) : Prop where
  bound : Bound rules info screen agent m
  history : m.history =
    (rules.rule agent).map fun rule => ⟨lib.hashScreen (rule.clean screen), t, none⟩

theorem Fresh.watches (h : Fresh lib rules info screen agent t m) :
    Watches lib rules info screen agent m where
  bound := h.bound
  same x rule hx hrule := by
    rw [h.history, hrule] at hx
    obtain rfl := Option.some.inj hx
    rfl

theorem observe_none : observe lib rules agent none screen nowMs =
    ((rules.rule agent).map fun rule => ⟨lib.hashScreen (rule.clean screen), nowMs, none⟩, none) := by
  unfold observe
  cases rules.rule agent <;> rfl

/-- The first dump of a bound pane reports nothing. -/
theorem Bound.first (h : Bound rules info screen agent m) (hh : m.history = none) :
    Fresh lib rules info screen agent nowMs (m.step lib (.dump rules info screen nowMs)).1 ∧
      (m.step lib (.dump rules info screen nowMs)).2 = [] := by
  obtain ⟨hbound, hhistory, hout⟩ := h.dump lib nowMs
  rw [hh, observe_none] at hhistory hout
  exact ⟨⟨hbound, hhistory⟩, hout⟩

/-- The first dump that finds an agent announces it. -/
theorem first_appeared (hb : m.binding = none) (hheld : m.held = false) (hh : m.history = none)
    (hf : rules.identify info.title info.command screen = some agent) :
    Fresh lib rules info screen agent nowMs (m.step lib (.dump rules info screen nowMs)).1 ∧
      (m.step lib (.dump rules info screen nowMs)).2 = [(agent, .unknown)] := by
  have hcase := dumpCase lib m rules info screen nowMs
  generalize m.step lib (.dump rules info screen nowMs) = r at hcase
  cases hcase with
  | hook hb' | kept hb' | missed hb' | left hb' => cases hb.symm.trans hb'
  | nothing _ hf' => cases hf.symm.trans hf'
  | held _ _ hheld' => cases hheld.symm.trans hheld'
  | appeared _ hf' =>
    obtain rfl := Option.some.inj (hf.symm.trans hf')
    rw [hh, observe_none]
    exact ⟨⟨⟨_, rfl, rfl, by simp [staysBound, CompiledRules.fits, hf]⟩, rfl⟩, rfl⟩

/-- The next dump, when the stable time has passed, reports the state of the screen. -/
theorem Fresh.settled (h : Fresh lib rules info screen agent t m)
    (hstable : ∀ rule, rules.rule agent = some rule → rule.stableMs ≤ nowMs - t) :
    (m.step lib (.dump rules info screen nowMs)).2 = reports agent (rules.settles agent screen) := by
  obtain ⟨-, -, hout⟩ := h.bound.dump lib nowMs
  rw [hout, h.history, CompiledRules.settles]
  cases hr : rules.rule agent with
  | none => simp [observe, hr]
  | some rule =>
    have hle := Nat.not_lt_of_le (hstable rule hr)
    simp only [observe, hr, Option.map_some, ScrapeTracker.observePane, ne_eq, not_true_eq_false,
      if_false, hle, Option.bind_some]
    cases ScrapeTracker.settledState rule (rule.clean screen) <;> rfl

end PaneMemory

end MultiAi
