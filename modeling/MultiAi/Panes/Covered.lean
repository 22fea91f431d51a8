import MultiAi.Panes.Story

/-! # Memory and the panes there are

What the server remembers is about panes of its lists. A poll drops the rest, and what it then
learns about a pane that comes back stems from the dumps since.
-/

namespace MultiAi

open Std Spool Server

namespace Covered

variable {lib : ScrapeLib} {s : Server} {nowMs : ℕ} {a : TickAnswers} {p : PaneRef}
  {sessions : List SessionInfo}

/-- All that is kept after a poll is about the sessions that it found and the panes of the lists. -/
structure Pruned (s : Server) (sessions : List SessionInfo) : Prop where
  listed : s.sessions = some sessions
  panes : ∀ name, s.paneList name ≠ none → sessionLive sessions name
  history : ∀ p, s.scrape.get p ≠ none → paneExists s.panes p
  agents : ∀ p, s.binding p ≠ none → paneExists s.panes p
  exitHold : ∀ p ∈ s.exitHold, paneExists s.panes p
  dumps : ∀ p, .dump p ∈ s.failing → paneExists s.panes p
  lists : ∀ name, .panes name ∈ s.failing → sessionLive sessions name

/-- The scopes that fail after a poll. -/
theorem scopeStays_of_failing {scope : Scope} (hs : s.polls nowMs a = some sessions)
    (hf : scope ∈ (s.pollIfDue nowMs a).1.failing) :
    scopeStays (liveSessions sessions) (s.pollIfDue nowMs a).1.panes scope := by
  have hsessions := answer_of_polls hs
  unfold polls at hs
  split_ifs at hs with hdue
  simp only [pollIfDue, hdue, if_true, pollPanes, hsessions, Finset.mem_filter] at hf ⊢
  exact hf.2

theorem pruned_poll (hb : Settling.Backed s) (hs : s.polls nowMs a = some sessions) :
    Pruned (s.pollIfDue nowMs a).1 sessions := by
  obtain ⟨hnone, -⟩ | ⟨sessions', hsome, hlast, hlists, -⟩ := pollIfDue_cases s nowMs a
  · cases hs.symm.trans hnone
  obtain rfl := Option.some.inj (hs.symm.trans hsome)
  have hmemory (p : PaneRef) (hp : ¬ paneExists (s.pollIfDue nowMs a).1.panes p) :
      (s.pollIfDue nowMs a).1.memory p = ⟨none, false, none, false⟩ := by
    have hpoll := memory_poll (p := p) hb hs
    split_ifs at hpoll
    · exact absurd (congrArg PaneMemory.listed hpoll) hp
    · exact hpoll
  constructor
  case listed => exact hlast
  case panes =>
    intro name hn
    rw [hlists, pollList] at hn
    split_ifs at hn with hlive
    · exact hlive
    · exact absurd rfl hn
  case history => exact fun p hp => (hb.poll p hp).2
  case agents =>
    intro p hp
    by_contra hx
    exact hp (congrArg PaneMemory.binding (hmemory p hx))
  case exitHold =>
    intro p hp
    by_contra hx
    simpa [memory, hp] using congrArg PaneMemory.held (hmemory p hx)
  case dumps => exact fun p hf => scopeStays_of_failing hs hf
  case lists =>
    intro name hf
    rw [← any_liveSessions]
    exact scopeStays_of_failing hs hf

/-- The history of a pane stems from the dumps and the reports of a story. -/
structure Since (lib : ScrapeLib) (h : List (PaneInput ⊕ Scraped)) (q : PaneScrape) : Prop where
  seen : ∃ rules info screen nowMs, ∃ rule : CompiledRule,
    .inl (.dump rules info screen nowMs) ∈ h ∧ q.hash = lib.hashScreen (rule.clean screen)
  stable : ∃ rules info screen, .inl (.dump rules info screen q.stableSinceMs) ∈ h
  told : ∀ state, q.emitted = some state → ∃ agent, .inr (agent, state) ∈ h

section Since

variable {h h' : List (PaneInput ⊕ Scraped)} {m m' : PaneMemory} {history : Option PaneScrape}
  {rules : CompiledRules} {info : PaneInfo} {agent screen : String} {q : PaneScrape}

theorem Since.mono (hq : Since lib h q) (hsub : h ⊆ h') : Since lib h' q := by
  obtain ⟨⟨rules, info, screen, nowMs, rule, hd, hhash⟩, ⟨rules', info', screen', hd'⟩, htold⟩ := hq
  refine ⟨⟨rules, info, screen, nowMs, rule, hsub hd, hhash⟩, ⟨rules', info', screen', hsub hd'⟩,
    fun state he => ?_⟩
  obtain ⟨agent, hm⟩ := htold state he
  exact ⟨agent, hsub hm⟩

/-- One more screen of an observed agent. -/
theorem since_observe (hq : ∀ q, history = some q → Since lib h q) (hsub : h ⊆ h')
    (hd : .inl (.dump rules info screen nowMs) ∈ h')
    (hr : ∀ x ∈ PaneMemory.reports agent
      (PaneMemory.observe lib rules agent history screen nowMs).2, .inr x ∈ h') :
    ∀ q, (PaneMemory.observe lib rules agent history screen nowMs).1 = some q → Since lib h' q := by
  have hcase := PaneMemory.observeCase lib rules agent history screen nowMs
  generalize PaneMemory.observe lib rules agent history screen nowMs = r at hcase hr
  cases hcase with
  | unruled => exact fun q he => (hq q he).mono hsub
  | @first rule =>
    rintro q ⟨⟩
    exact ⟨⟨rules, info, screen, nowMs, rule, hd, rfl⟩, ⟨rules, info, screen, hd⟩, by simp⟩
  | @changed rule old hrule hold =>
    rintro q ⟨⟩
    refine ⟨⟨rules, info, screen, nowMs, rule, hd, rfl⟩, ⟨rules, info, screen, hd⟩, ?_⟩
    rintro state ⟨⟩
    by_cases he : old.emitted = some .working
    · exact ((hq old hold).mono hsub).told _ he
    · exact ⟨agent, hr _ (by simp [PaneMemory.reports, he])⟩
  | @young rule old _ hold =>
    rintro q ⟨⟩
    exact (hq old hold).mono hsub
  | @settled rule old state _ hold =>
    rintro q ⟨⟩
    obtain ⟨hseen, hstable, htold⟩ := (hq old hold).mono hsub
    refine ⟨hseen, hstable, ?_⟩
    rintro state ⟨⟩
    by_cases he : old.emitted = some state
    · exact htold _ he
    · exact ⟨agent, hr _ (by simp [PaneMemory.reports, he])⟩
  | @idle rule old _ hold =>
    rintro q ⟨⟩
    obtain ⟨hseen, hstable, -⟩ := (hq old hold).mono hsub
    exact ⟨hseen, hstable, by simp⟩

/-- What is remembered of a pane that was forgotten stems from its story since. -/
theorem since_logs (hl : PaneMemory.Logs lib m h m') (hm : m.history = none) :
    ∀ q, m'.history = some q → Since lib h q := by
  refine Machine.Logs.invariant (P := fun h m => ∀ q, m.history = some q → Since lib h q)
    (by simp [hm]) (fun h m i ih _ => ?_) hl
  have hkeep : ∀ q, m.history = some q → Since lib (h ++ .inl i :: (m.step lib i).2.map .inr) q :=
    fun q hq => (ih q hq).mono (List.subset_append_left _ _)
  cases i with
  | hook agent exited =>
    cases exited with
    | true => simp [PaneMemory.step]
    | false => exact hkeep
  | listed => exact hkeep
  | unlisted told => simp [PaneMemory.step]
  | newRules => simp [PaneMemory.step]
  | dump rules info screen nowMs =>
    have hcase := PaneMemory.dumpCase lib m rules info screen nowMs
    generalize PaneMemory.step lib m (.dump rules info screen nowMs) = r at hcase hkeep ⊢
    have hd : .inl (.dump rules info screen nowMs) ∈
        h ++ .inl (.dump rules info screen nowMs) :: r.2.map .inr := by simp
    have hout : ∀ x ∈ r.2, (.inr x : PaneInput ⊕ Scraped) ∈
        h ++ .inl (.dump rules info screen nowMs) :: r.2.map .inr := fun x hx =>
      List.mem_append_right _ (List.mem_cons_of_mem _ (List.mem_map_of_mem hx))
    have hsub : h ⊆ h ++ .inl (.dump rules info screen nowMs) :: r.2.map .inr :=
      List.subset_append_left _ _
    cases hcase with
    | hook => exact since_observe ih hsub hd hout
    | kept => exact since_observe ih hsub hd hout
    | missed => exact hkeep
    | left => simp
    | nothing => exact hkeep
    | held => exact hkeep
    | appeared => exact since_observe ih hsub hd fun x hx => hout x (List.mem_cons_of_mem _ hx)

end Since

/-- In every run of a server: a scrape history belongs to a pane of the lists; a poll that learns
the sessions leaves nothing of a pane or a session that is not there; and a pane that is not there
has left nothing: what its history holds later stems from its dumps and reports since. -/
theorem memory_covered (lib : ScrapeLib) (zellij : Bool) (ack : ℕ) (rules : CompiledRules)
    (is : List Input) :
    (∀ p, (Machine.run (step lib) (.new zellij ack rules) is).scrape.get p ≠ none →
      paneExists (Machine.run (step lib) (.new zellij ack rules) is).panes p) ∧
    (∀ nowMs a sessions,
      (Machine.run (step lib) (.new zellij ack rules) is).polls nowMs a = some sessions →
        Pruned ((Machine.run (step lib) (.new zellij ack rules) is).polled nowMs a) sessions) ∧
    ∀ p, paneExists (Machine.run (step lib) (.new zellij ack rules) is).panes p = false →
      ∀ js q, (Machine.run (step lib) (.new zellij ack rules) (is ++ js)).scrape.get p = some q →
        Since lib ((Machine.run (step lib) (.new zellij ack rules) is).stories lib p js) q := by
  have hb : Settling.Backed (Machine.run (step lib) (.new zellij ack rules) is) :=
    Machine.run_preserves (P := Settling.Backed) (fun _ i hb => backed_step hb i)
      (Settling.backed_new zellij ack rules) is
  simp only [Machine.run_append]
  generalize Machine.run (step lib) (.new zellij ack rules) is = s at hb
  refine ⟨fun p hp => (hb p hp).2, fun nowMs a sessions hs => ?_, fun p hp js q hq => ?_⟩
  · exact pruned_poll hb.drained ((polls_congr (known_drained s nowMs a) nowMs a).trans hs)
  · have hnone : (s.memory p).history = none := by
      by_contra hne
      rw [(hb p hne).2] at hp
      cases hp
    exact since_logs (logs_run hb js) hnone q hq

end Covered

end MultiAi
