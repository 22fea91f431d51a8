import MultiAi.Silence.Steady

/-! # A host that does not change falls silent

The ticks before the first poll that is answered scrape the lists of the last one, those
from it on the lists of zellij. In each of the two stretches a pane is reported to exit
once, to appear once and in two more states, and after two dumps of each pane that report
nothing the server is silent.
-/

namespace MultiAi

open Std Machine Server

/-- The state that a message reports of a pane. -/
def ProbeMsg.stateOf (p : PaneRef) : ProbeMsg → Option AgentState
  | .agentEvent ev => if ev.pane = p then some ev.state else none
  | _ => none

namespace Silence

variable {lib : ScrapeLib} {a : TickAnswers} {s : Server} {nowMs : ℕ} {p : PaneRef}
  {lists : PaneLists} {ts : List ℕ}

/-- At most one exit, one appearance and two other states of a pane. -/
structure Few (p : PaneRef) (out : List ProbeMsg) : Prop where
  exited : (out.filterMap (·.stateOf p)).count .exited ≤ 1
  unknown : (out.filterMap (·.stateOf p)).count .unknown ≤ 1
  others : (out.filterMap (·.stateOf p)).countP (fun state =>
    state ≠ .exited && state ≠ .unknown) ≤ 2

theorem cost_price (states : List AgentState) : cost AgentState.price states =
    (states.count .exited, states.count .unknown,
      states.countP fun state => state ≠ .exited && state ≠ .unknown) := by
  induction states with
  | nil => rfl
  | cons state states ih =>
    rw [cost_cons, ih]
    cases state <;> simp [AgentState.price, Nat.add_comm]

/-- Messages of such ticks report panes as they were scraped. -/
theorem weight_again (ha : a.Idle) {msg : ProbeMsg} (hm : msg ∈ (s.again lib a nowMs).2) :
    weight p msg = (msg.stateOf p).elim 0 AgentState.price := by
  rcases again_tells ha msg hm with h | h | ⟨name, h⟩ | ⟨pane, agent, state, rfl⟩
  · cases msg <;> first | rfl | cases h
  · cases msg <;> first | rfl | cases h
  · cases msg <;> first | rfl | cases h
  · rw [weight, scraped_scrapeEvent]
    simp only [scrapeEvent, ProbeMsg.stateOf]
    split_ifs <;> rfl

theorem few_of_cost (ha : a.Idle) (h : cost (weight p) (outputs (again lib a) s ts) ≤ (1, 1, 2)) :
    Few p (outputs (again lib a) s ts) := by
  have hstates : cost (weight p) (outputs (again lib a) s ts) =
      cost AgentState.price ((outputs (again lib a) s ts).filterMap (·.stateOf p)) := by
    rw [cost_filterMap]
    refine cost_congr fun msg hm => ?_
    obtain ⟨s', t, -, hm⟩ := exists_of_mem_outputs hm
    exact weight_again ha hm
  rw [hstates, cost_price] at h
  exact ⟨h.1, h.2.1, h.2.2⟩

section Lists

/-- A poll changes no list any more. -/
def Fixed (a : TickAnswers) (s : Server) : Prop :=
  s.zellij → ∀ sessions, a.sessions = .ok sessions → ∀ name, s.pollList a sessions name = s.paneList name

theorem panes_again : (s.again lib a nowMs).1.panes = (s.polled nowMs a).panes :=
  panes_scrapeIfDue ..

theorem zellij_scrape : (s.again lib a nowMs).1.zellij = (s.polled nowMs a).zellij :=
  zellij_again.trans (settings_polled s nowMs a).1.symm

theorem panes_drained : (s.drained nowMs a).panes = s.panes :=
  congrArg Known.panes (known_drained s nowMs a)

theorem pollList_congr {s' : Server} (h : s'.panes = s.panes) : s'.pollList a = s.pollList a := by
  funext sessions name
  rw [pollList, pollList, paneList, paneList, h]

/-- The lists of a tick: those of its poll if it is answered, else those of the last one. -/
theorem panes_polled (h : s.polls nowMs a = none) : (s.polled nowMs a).panes = s.panes := by
  rw [polls_congr (known_drained s nowMs a).symm] at h
  rcases pollIfDue_cases (s.drained nowMs a) nowMs a with ⟨-, -, hp, -⟩ | ⟨sessions, hsome, -⟩
  · exact hp.trans panes_drained
  · cases h.symm.trans hsome

theorem paneList_polled {sessions : List SessionInfo} (h : s.polls nowMs a = some sessions)
    (name : String) : (s.polled nowMs a).paneList name = s.pollList a sessions name := by
  rw [polls_congr (known_drained s nowMs a).symm] at h
  rcases pollIfDue_cases (s.drained nowMs a) nowMs a with ⟨hnone, -⟩ | ⟨sessions', hsome, -, hp, -⟩
  · cases h.symm.trans hnone
  · obtain rfl := Option.some.inj (h.symm.trans hsome)
    rw [polled, hp, pollList_congr panes_drained]

theorem Fixed.polled (h : Fixed a s) : (s.polled nowMs a).panes = s.panes := by
  cases hp : s.polls nowMs a with
  | none => exact panes_polled hp
  | some sessions =>
    ext1 name
    exact (paneList_polled hp name).trans (h (zellij_of_polls hp) sessions (answer_of_polls hp) name)

theorem Fixed.congr {s' : Server} (hz : s'.zellij = s.zellij) (hp : s'.panes = s.panes)
    (h : Fixed a s) : Fixed a s' := by
  intro hz' sessions hs name
  rw [pollList_congr hp, h (hz ▸ hz') sessions hs name, paneList, paneList, hp]

theorem Fixed.again (h : Fixed a s) : Fixed a (s.again lib a nowMs).1 :=
  h.congr zellij_again (panes_again.trans h.polled)

/-- A poll that is answered fixes the lists. -/
theorem fixed_polled {sessions : List SessionInfo} (h : s.polls nowMs a = some sessions) :
    Fixed a (s.polled nowMs a) := by
  intro _ sessions' hs name
  obtain rfl := Except.ok.inj ((answer_of_polls h).symm.trans hs)
  rw [paneList_polled h]
  exact pollList_polled (paneList_polled h)

theorem along_fixed (h : Fixed a s) :
    Along (again lib a) (fun s' nowMs => (s'.polled nowMs a).panes = s.panes) s ts := by
  refine .of_invariant (P := fun s' => Fixed a s' ∧ s'.panes = s.panes) (Q := fun _ => True) ?_
    ⟨h, rfl⟩ fun _ _ => trivial
  rintro s' nowMs ⟨hf, hp⟩ -
  exact ⟨⟨hf.again, panes_again.trans (hf.polled.trans hp)⟩, hf.polled.trans hp⟩

/-- The ticks before the first poll that is answered. -/
def stale (lib : ScrapeLib) (a : TickAnswers) : Server → List ℕ → List ℕ :=
  before (again lib a) fun s nowMs => (s.polls nowMs a).isSome

/-- The ticks from the first poll that is answered on. -/
def fresh (lib : ScrapeLib) (a : TickAnswers) : Server → List ℕ → List ℕ :=
  since (again lib a) fun s nowMs => (s.polls nowMs a).isSome

theorem along_stale : Along (again lib a) (fun s' nowMs => (s'.polled nowMs a).panes = s.panes) s
    (stale lib a s ts) := by
  refine Along.imp (P := fun s' => s'.panes = s.panes) (fun s' nowMs hp hnone => ?_) rfl along_before
  have hpolled := panes_polled (Option.not_isSome_iff_eq_none.mp (by simpa using hnone))
  exact ⟨panes_again.trans (hpolled.trans hp), hpolled.trans hp⟩

/-- From a poll that is answered on the lists are the same. -/
theorem along_fresh : ∃ lists, Along (again lib a) (fun s' nowMs => (s'.polled nowMs a).panes = lists)
    (run (again lib a) s (stale lib a s ts)) (fresh lib a s ts) := by
  cases hfresh : fresh lib a s ts with
  | nil => exact ⟨∅, trivial⟩
  | cons nowMs ts' =>
    have hsome := marked_of_since hfresh
    change ((run (again lib a) s (stale lib a s ts)).polls nowMs a).isSome at hsome
    generalize run (again lib a) s (stale lib a s ts) = s' at hsome ⊢
    obtain ⟨sessions, hpolls⟩ := Option.isSome_iff_exists.mp hsome
    refine ⟨(s'.polled nowMs a).panes, rfl, ?_⟩
    have hfixed : Fixed a (s'.again lib a nowMs).1 := (fixed_polled hpolls).congr zellij_scrape panes_again
    have halong := @along_fixed lib a _ ts' hfixed
    rwa [panes_again] at halong

/-- Neither the lists nor the answers name a pane twice. -/
structure Single (a : TickAnswers) (p : PaneRef) (s : Server) : Prop where
  lists : Once s.panes p
  answers : ∀ ps, a.panes p.session = .ok ps → ps.countP (·.id = p.paneId) ≤ 1

theorem Single.polled (h : Single a p s) : Once (s.polled nowMs a).panes p := by
  intro ps hps
  cases hpolls : s.polls nowMs a with
  | none =>
    rw [panes_polled hpolls] at hps
    exact h.lists ps hps
  | some sessions =>
    have hlist := (paneList_polled hpolls p.session).symm.trans hps
    rw [pollList] at hlist
    split_ifs at hlist
    cases hans : a.panes p.session with
    | ok ps' =>
      rw [hans] at hlist
      obtain rfl := Option.some.inj hlist
      exact h.answers ps' hans
    | error e =>
      rw [hans] at hlist
      exact h.lists ps hlist

theorem Single.run (h : Single a p s) : Single a p (run (again lib a) s ts) := by
  refine run_preserves (fun s' nowMs hs' => ⟨?_, hs'.answers⟩) h ts
  rw [panes_again]
  exact hs'.polled

end Lists

section Counts

theorem backed_again (hb : Settling.Backed s) : Settling.Backed (s.again lib a nowMs).1 := hb.tick

/-- While the lists are the same, a pane is reported to do what was left for it to do. -/
theorem reports_le (ha : a.Idle) (hb : Settling.Backed s) (honce : Once lists p)
    (h : Along (again lib a) (fun s' nowMs => (s'.polled nowMs a).panes = lists) s ts) :
    cost (weight p) (outputs (again lib a) s ts) +
        reportsLeft lib a lists p (run (again lib a) s ts) ≤ reportsLeft lib a lists p s :=
  (cost_outputs_le (P := Settling.Backed) (fun _ _ hb hlists =>
    ⟨backed_again hb, reports_left ha hb hlists honce⟩) hb h).2

/-- In a stretch with the same lists a pane is reported little. -/
theorem few_outputs (ha : a.Idle) (hb : Settling.Backed s) (hs : Single a p s)
    (h : Along (again lib a) (fun s' nowMs => (s'.polled nowMs a).panes = lists) s ts) :
    Few p (outputs (again lib a) s ts) := by
  refine few_of_cost ha ?_
  cases ts with
  | nil => exact Tally.nonneg _
  | cons nowMs ts =>
    have honce : Once lists p := h.1 ▸ hs.polled
    exact ((le_add_of_nonneg_right (Tally.nonneg _)).trans (reports_le ha hb honce h)).trans
      reportsLeft_le

theorem countP_outputs_le {q : ProbeMsg → Bool} {left : Server → ℕ}
    (h : ∀ s nowMs, (s.again lib a nowMs).2.countP q + left (s.again lib a nowMs).1 ≤ left s) :
    (outputs (again lib a) s ts).countP q + left (run (again lib a) s ts) ≤ left s := by
  have hstep : ∀ (s : Server) (nowMs : ℕ), True → True →
      True ∧ cost (fun msg => (q msg).toNat) (s.again lib a nowMs).2 +
        left (s.again lib a nowMs).1 ≤ left s := by
    intro s nowMs _ _
    rw [cost_toNat]
    exact ⟨trivial, h s nowMs⟩
  obtain ⟨-, hcost⟩ := cost_outputs_le hstep trivial
    (.of_forall fun _ _ _ => trivial : Along (again lib a) (fun _ _ => True) s ts)
  rwa [cost_toNat] at hcost

/-- The entries of a session in the session list. -/
def entries (a : TickAnswers) (name : String) : ℕ :=
  match a.sessions with
  | .ok sessions => (liveSessions sessions).countP (·.name = name)
  | .error _ => 0

theorem sessions_once (ha : a.Idle) : (outputs (again lib a) s ts).countP (·.isSessions) ≤ 1 := by
  have hle := @countP_outputs_le lib a s ts _ _ fun s nowMs => @sessions_left lib a s nowMs ha
  have hleft : sessionsLeft a s ≤ 1 := by
    unfold sessionsLeft
    split
    · split_ifs <;> omega
    · omega
  omega

theorem panes_once (ha : a.Idle) (name : String) :
    (outputs (again lib a) s ts).countP (·.isPanes name) ≤ entries a name := by
  have hle := @countP_outputs_le lib a s ts _ _ fun s nowMs => @panes_left lib a s nowMs name ha
  have hleft : panesLeft a name s ≤ entries a name := by
    unfold panesLeft entries
    split
    · rename_i hsessions _
      rw [hsessions]
      simp only
      split_ifs <;> omega
    · omega
  omega

/-- Every failure is that of a scope of its own. -/
theorem errors_once (ha : a.Idle) : ∃ scopes : List (Option Scope), scopes.Nodup ∧
    scopes.map a.failure = ((outputs (again lib a) s ts).filter (·.isError)).map some := by
  have hstep : ∀ (s : Server) (nowMs : ℕ), True → True →
      True ∧ Pays a s (s.again lib a nowMs) := fun _ _ _ _ => ⟨trivial, pays_tick ha⟩
  obtain ⟨scopes, h⟩ := spends_outputs hstep trivial
    (.of_forall fun _ _ _ => trivial : Along (again lib a) (fun _ _ => True) s ts)
  exact ⟨scopes, h.nodup, h.names⟩

end Counts

end Silence

end MultiAi
