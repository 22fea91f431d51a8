import MultiAi.Agreement.Scrape

/-! # The story of one pane

What the server remembers of a pane depends only on the hook records, polls and dumps of
that pane. The pane is a machine of its own, and a run of the server, seen from the pane,
is a run of that machine.
-/

namespace MultiAi

open Std Spool Server

/-- What the server learns about one pane. -/
inductive PaneInput where
  /-- A hook record was read: its agent, and whether the agent exited. -/
  | hook (agent : String) (exited : Bool)
  /-- A poll was answered and the pane is listed. -/
  | listed
  /-- A poll was answered and the pane is not listed: whether zellij told so, or the
  panes of its session could not be listed. -/
  | unlisted (told : Bool)
  /-- The pane was dumped. -/
  | dump (rules : CompiledRules) (info : PaneInfo) (screen : String) (nowMs : ℕ)
  /-- The rules were replaced. -/
  | newRules

/-- The agent and the state of a scrape event. -/
abbrev Scraped := String × AgentState

/-- What the server remembers of one pane. -/
structure PaneMemory where
  binding : Option Binding
  held : Bool
  history : Option PaneScrape
  listed : Bool

attribute [ext] PaneMemory

/-- A screen shows an agent: it is identified, or its rules still match. -/
def CompiledRules.fits (rules : CompiledRules) (agent : String) (info : PaneInfo)
    (screen : String) : Bool :=
  rules.identify info.title info.command screen = some agent ||
    rules.stillMatches agent info.title info.command screen

namespace PaneMemory

/-- The agent of a dumped pane: see `Server.bindScrape`. -/
def bind (m : PaneMemory) (rules : CompiledRules) (info : PaneInfo) (screen : String) :
    PaneMemory × Option String × List Scraped :=
  let found := rules.identify info.title info.command screen
  match m.binding with
  | some b =>
    if b.fromHook then (m, some b.agent, [])
    else if found = some b.agent || rules.stillMatches b.agent info.title info.command screen then
      ({ m with binding := some { b with misses := 0 } }, some b.agent, [])
    else if b.misses + 1 < missesToExit then
      ({ m with binding := some { b with misses := b.misses + 1 } }, none, [])
    else ({ m with binding := none, history := none }, none, [(b.agent, .exited)])
  | none =>
    match found with
    | none => ({ m with held := false }, none, [])
    | some agent =>
      if m.held then (m, none, [])
      else ({ m with binding := some ⟨agent, false, 0⟩ }, some agent, [(agent, .unknown)])

/-- The history of a pane after one more screen: see `ScrapeTracker.observe`. -/
def observe (lib : ScrapeLib) (rules : CompiledRules) (agent : String)
    (history : Option PaneScrape) (screen : String) (nowMs : ℕ) :
    Option PaneScrape × Option AgentState :=
  match rules.rule agent with
  | none => (history, none)
  | some rule =>
    let screen := rule.clean screen
    match history with
    | none => (some ⟨lib.hashScreen screen, nowMs, none⟩, none)
    | some p =>
      let (p, state) := ScrapeTracker.observePane rule p (lib.hashScreen screen) screen nowMs
      (some p, state)

def step (lib : ScrapeLib) (m : PaneMemory) : PaneInput → PaneMemory × List Scraped
  | .hook agent exited =>
    if exited then ({ m with binding := none, held := true, history := none }, [])
    else ({ m with binding := some ⟨agent, true, 0⟩, held := false }, [])
  | .listed => ({ m with listed := true }, [])
  | .unlisted _ => (⟨none, false, none, false⟩, [])
  | .dump rules info screen nowMs =>
    match m.bind rules info screen with
    | (m, none, out) => (m, out)
    | (m, some agent, out) =>
      let (history, state) := observe lib rules agent m.history screen nowMs
      ({ m with history := history }, out ++ (state.map (agent, ·)).toList)
  | .newRules => ({ m with history := none }, [])

/-- What a screen can make of the history of an observed agent. -/
inductive ObserveCase (lib : ScrapeLib) (rules : CompiledRules) (agent : String)
    (history : Option PaneScrape) (screen : String) (nowMs : ℕ) :
    Option PaneScrape × Option AgentState → Prop
  | unruled : rules.rule agent = none →
      ObserveCase lib rules agent history screen nowMs (history, none)
  | first {rule : CompiledRule} : rules.rule agent = some rule → history = none →
      ObserveCase lib rules agent history screen nowMs
        (some ⟨lib.hashScreen (rule.clean screen), nowMs, none⟩, none)
  | changed {rule : CompiledRule} {p : PaneScrape} : rules.rule agent = some rule →
      history = some p → p.hash ≠ lib.hashScreen (rule.clean screen) →
      ObserveCase lib rules agent history screen nowMs
        (some ⟨lib.hashScreen (rule.clean screen), nowMs, some .working⟩,
          if p.emitted = some .working then none else some .working)
  | young {rule : CompiledRule} {p : PaneScrape} : rules.rule agent = some rule →
      history = some p → p.hash = lib.hashScreen (rule.clean screen) →
      nowMs - p.stableSinceMs < rule.stableMs →
      ObserveCase lib rules agent history screen nowMs (some p, none)
  | settled {rule : CompiledRule} {p : PaneScrape} {state : AgentState} :
      rules.rule agent = some rule → history = some p →
      p.hash = lib.hashScreen (rule.clean screen) → rule.stableMs ≤ nowMs - p.stableSinceMs →
      ScrapeTracker.settledState rule (rule.clean screen) = some state →
      ObserveCase lib rules agent history screen nowMs
        (some { p with emitted := some state }, if p.emitted = some state then none else some state)
  | idle {rule : CompiledRule} {p : PaneScrape} : rules.rule agent = some rule →
      history = some p → p.hash = lib.hashScreen (rule.clean screen) →
      rule.stableMs ≤ nowMs - p.stableSinceMs →
      ScrapeTracker.settledState rule (rule.clean screen) = none →
      ObserveCase lib rules agent history screen nowMs (some { p with emitted := none }, none)

theorem observeCase (lib : ScrapeLib) (rules : CompiledRules) (agent : String)
    (history : Option PaneScrape) (screen : String) (nowMs : ℕ) :
    ObserveCase lib rules agent history screen nowMs
      (observe lib rules agent history screen nowMs) := by
  unfold observe
  cases hr : rules.rule agent with
  | none => exact .unruled hr
  | some rule =>
    cases history with
    | none => exact .first hr rfl
    | some p =>
      obtain ⟨hash, since, emitted⟩ := p
      simp only [ScrapeTracker.observePane]
      by_cases hhash : hash = lib.hashScreen (rule.clean screen)
      · subst hhash
        simp only [ne_eq, not_true_eq_false, if_false]
        by_cases hy : nowMs - since < rule.stableMs
        · rw [if_pos hy]
          exact .young hr rfl rfl hy
        · have hstable := Nat.le_of_not_lt hy
          rw [if_neg hy]
          cases hs : ScrapeTracker.settledState rule (rule.clean screen) with
          | none => exact .idle hr rfl rfl hstable hs
          | some state =>
            have hcase := ObserveCase.settled (p := ⟨lib.hashScreen (rule.clean screen), since, emitted⟩)
              hr rfl rfl hstable hs
            by_cases he : emitted = some state
            · simpa only [he, if_true] using hcase
            · simpa only [he, if_false] using hcase
      · have hcase : ObserveCase lib rules agent _ screen nowMs _ :=
          .changed (p := ⟨hash, since, emitted⟩) hr rfl hhash
        by_cases he : emitted = some .working
        · simpa only [ne_eq, hhash, not_false_eq_true, if_true, he] using hcase
        · simpa only [ne_eq, hhash, not_false_eq_true, if_true, he, if_false] using hcase

theorem settledState_mem {rule : CompiledRule} {screen : String} {state : AgentState}
    (h : ScrapeTracker.settledState rule screen = some state) :
    state = .needsInput ∨ state = .done := by
  unfold ScrapeTracker.settledState at h
  split_ifs at h <;> cases h
  · exact .inl rfl
  · exact .inr rfl

/-- The report of an observed agent. -/
def reports (agent : String) (state : Option AgentState) : List Scraped :=
  (state.map (agent, ·)).toList

/-- What a dump can make of a pane. -/
inductive DumpCase (lib : ScrapeLib) (m : PaneMemory) (rules : CompiledRules) (info : PaneInfo)
    (screen : String) (nowMs : ℕ) : PaneMemory × List Scraped → Prop
  | hook {b : Binding} : m.binding = some b → b.fromHook = true →
      DumpCase lib m rules info screen nowMs
        ({ m with history := (observe lib rules b.agent m.history screen nowMs).1 },
          reports b.agent (observe lib rules b.agent m.history screen nowMs).2)
  | kept {b : Binding} : m.binding = some b → b.fromHook = false →
      rules.fits b.agent info screen = true →
      DumpCase lib m rules info screen nowMs
        ({ m with
            binding := some { b with misses := 0 }
            history := (observe lib rules b.agent m.history screen nowMs).1 },
          reports b.agent (observe lib rules b.agent m.history screen nowMs).2)
  | missed {b : Binding} : m.binding = some b → b.fromHook = false →
      rules.fits b.agent info screen = false → b.misses + 1 < missesToExit →
      DumpCase lib m rules info screen nowMs
        ({ m with binding := some { b with misses := b.misses + 1 } }, [])
  | left {b : Binding} : m.binding = some b → b.fromHook = false →
      rules.fits b.agent info screen = false → missesToExit ≤ b.misses + 1 →
      DumpCase lib m rules info screen nowMs
        ({ m with binding := none, history := none }, [(b.agent, .exited)])
  | nothing : m.binding = none → rules.identify info.title info.command screen = none →
      DumpCase lib m rules info screen nowMs ({ m with held := false }, [])
  | held {agent : String} : m.binding = none →
      rules.identify info.title info.command screen = some agent → m.held = true →
      DumpCase lib m rules info screen nowMs (m, [])
  | appeared {agent : String} : m.binding = none →
      rules.identify info.title info.command screen = some agent → m.held = false →
      DumpCase lib m rules info screen nowMs
        ({ m with
            binding := some ⟨agent, false, 0⟩
            history := (observe lib rules agent m.history screen nowMs).1 },
          (agent, .unknown) :: reports agent (observe lib rules agent m.history screen nowMs).2)

theorem dumpCase (lib : ScrapeLib) (m : PaneMemory) (rules : CompiledRules) (info : PaneInfo)
    (screen : String) (nowMs : ℕ) :
    DumpCase lib m rules info screen nowMs (m.step lib (.dump rules info screen nowMs)) := by
  obtain ⟨binding, isHeld, history, isListed⟩ := m
  simp only [step, bind]
  cases binding with
  | some b =>
    simp only
    split_ifs with hh hfit hx
    · exact .hook rfl hh
    · exact .kept rfl (by simpa using hh) hfit
    · exact .missed rfl (by simpa using hh) (by simpa [CompiledRules.fits] using hfit) hx
    · exact .left rfl (by simpa using hh) (by simpa [CompiledRules.fits] using hfit)
        (Nat.le_of_not_lt hx)
  | none =>
    cases hf : rules.identify info.title info.command screen with
    | none => exact .nothing rfl hf
    | some agent =>
      simp only
      split_ifs with hh
      · exact .held rfl hf hh
      · exact .appeared rfl hf (by simpa using hh)

/-- Only a listed pane is dumped, and a pane that was listed is dropped only when zellij
tells that it is gone. -/
def Enabled (m : PaneMemory) : PaneInput → Prop
  | .unlisted told => told ∨ m.listed = false
  | .dump .. => m.listed
  | _ => True

/-- A story of a pane, and what is remembered before and after it. -/
abbrev Logs (lib : ScrapeLib) : PaneMemory → List (PaneInput ⊕ Scraped) → PaneMemory → Prop :=
  Machine.Logs (step lib) Enabled

end PaneMemory

/-- The scrape event of a pane that a message carries. -/
def ProbeMsg.scraped (p : PaneRef) : ProbeMsg → Option Scraped
  | .agentEvent ev => if ev.source = .scrape ∧ ev.pane = p then some (ev.agent, ev.state) else none
  | _ => none

namespace Server

variable (lib : ScrapeLib) (p : PaneRef) (s : Server) (nowMs : ℕ) (a : TickAnswers)

def memory (s : Server) (p : PaneRef) : PaneMemory where
  binding := s.binding p
  held := p ∈ s.exitHold
  history := s.scrape.get p
  listed := paneExists s.panes p

/-- The hook record of a pane. -/
def hookInput (entry : ℕ × SpoolRecord) : List PaneInput :=
  if entry.2.pane = p then
    [.hook entry.2.agent ((entry.2.event entry.1).any (·.state = .exited))]
  else []

/-- The hook records of a pane that a tick reads. -/
def hookInputs : List PaneInput :=
  if s.zellij then
    match a.read with
    | .ok read => read.records.flatMap (hookInput p)
    | .error _ => []
  else []

/-- Zellij told that a pane is gone: its session is not live, or its list lacks the pane. -/
def toldGone (sessions : List SessionInfo) : Bool :=
  !sessionLive sessions p.session ||
    (a.panes p.session).toOption.any fun ps => !ps.any (·.id = p.paneId)

/-- What the poll of a tick says about a pane. -/
def pollInputs : List PaneInput :=
  match s.polls nowMs a with
  | none => []
  | some sessions =>
    if (s.pollList a sessions p.session).any fun ps => ps.any (·.id = p.paneId) then [.listed]
    else [.unlisted (toldGone p a sessions)]

/-- One visit of a scrape, with what it says about a pane. -/
def visit (s : Server) (target : PaneRef × PaneInfo) : Server × List (PaneInput ⊕ Scraped) :=
  let (s', out) := scrapePane lib a.dump nowMs s target
  let dumped :=
    if target.1 = p then
      match a.dump p with
      | .ok screen => [.inl (.dump s.rules target.2 screen nowMs)]
      | .error _ => []
    else []
  (s', dumped ++ (out.filterMap (·.scraped p)).map .inr)

/-- What an input says about a pane, and the scrape events of the pane it brings. -/
def story (s : Server) : Input → List (PaneInput ⊕ Scraped)
  | .tick nowMs a =>
    (s.hookInputs p a).map .inl ++ (s.pollInputs p nowMs a).map .inl ++
      if (s.polled nowMs a).zellij && due (s.polled nowMs a).lastScrape
          (s.polled nowMs a).intervals.scrapeMs nowMs then
        Machine.outputs (visit lib p nowMs a) (s.scraping nowMs a) (s.polled nowMs a).targets
      else []
  | .app _ (.setRules rules) =>
    match CompiledRules.compile lib rules with
    | .ok _ => [.inl .newRules]
    | .error _ => []
  | .app _ _ => []

/-- The story of a pane over a run. -/
def stories (s : Server) (is : List Input) : List (PaneInput ⊕ Scraped) :=
  Machine.outputs (fun s i => ((s.step lib i).1, s.story lib p i)) s is

section Simulation

variable {lib p s nowMs a}

theorem memory_runCleanup : (s.runCleanup nowMs a).1.memory p = s.memory p := by
  unfold runCleanup
  split_ifs
  · split <;> rfl
  · rfl

theorem memory_bindRecord (pane : PaneRef) (agent : String) (exited : Bool) :
    (s.bindRecord pane agent exited).memory p =
      if pane = p then (PaneMemory.step lib (s.memory p) (.hook agent exited)).1
      else s.memory p := by
  cases exited with
  | true =>
    split_ifs with hp
    · subst hp
      ext1 <;> simp [bindRecord, memory, PaneMemory.step, binding, ScrapeTracker.get_forget]
    · ext1 <;> simp [bindRecord, memory, binding, ScrapeTracker.get_forget,
        ExtTreeMap.getElem?_erase, hp, Ne.symm hp]
  | false =>
    split_ifs with hp
    · subst hp
      ext1 <;> simp [bindRecord, memory, PaneMemory.step, binding]
    · ext1 <;> simp [bindRecord, memory, binding, ExtTreeMap.getElem?_insert, hp, Ne.symm hp]

theorem logs_drainRecord (hz : s.zellij) (entry : ℕ × SpoolRecord) :
    PaneMemory.Logs lib (s.memory p) ((hookInput p entry).map .inl)
      ((drainRecord s entry).1.memory p) := by
  obtain ⟨cursor, r⟩ := entry
  simp only [drainRecord, hz, if_true, hookInput, @memory_bindRecord lib]
  split_ifs with hp
  · have hlog (exited : Bool) : PaneMemory.Logs lib (s.memory p)
        [.inl (.hook r.agent exited)] (PaneMemory.step lib (s.memory p) (.hook r.agent exited)).1 := by
      cases exited <;> exact .single _ trivial
    exact hlog _
  · exact .nil _

theorem logs_records (hz : s.zellij) (records : List (ℕ × SpoolRecord)) :
    PaneMemory.Logs lib (s.memory p)
      ((records.flatMap (hookInput p)).map .inl) ((Machine.run drainRecord s records).memory p) := by
  induction records generalizing s with
  | nil => exact .nil _
  | cons entry records ih =>
    have hz' : (drainRecord s entry).1.zellij :=
      (congrArg Known.zellij (known_drainRecord s entry)).trans hz
    rw [List.flatMap_cons, List.map_append]
    exact (logs_drainRecord hz entry).trans (ih hz')

/-- Without zellij no record binds a pane. -/
theorem run_drainRecord (hz : s.zellij = false) (records : List (ℕ × SpoolRecord)) :
    Machine.run drainRecord s records = s := by
  induction records with
  | nil => rfl
  | cons entry records ih => simpa [drainRecord, hz] using ih

theorem logs_drained : PaneMemory.Logs lib (s.memory p)
    ((s.hookInputs p a).map .inl) ((s.drained nowMs a).memory p) := by
  have hclean := @memory_runCleanup p s nowMs a
  have hzellij : (s.runCleanup nowMs a).1.zellij = s.zellij :=
    congrArg Known.zellij (known_runCleanup s nowMs a)
  rw [drained, ← hclean, hookInputs, ← hzellij]
  generalize (s.runCleanup nowMs a).1 = s
  cases hread : a.read with
  | error e =>
    simp only [drainSpool, hread, ite_self]
    exact .nil _
  | ok read =>
    simp only [drainSpool, hread]
    split_ifs with hz
    · exact logs_records (s := { s with spoolFailing := false, readCursor := read.endCursor }) hz
        read.records
    · rw [run_drainRecord (by simpa using hz)]
      exact .nil _

theorem pollInputs_congr {s' : Server} (h : s.known = s'.known) :
    s.pollInputs p nowMs a = s'.pollInputs p nowMs a := by
  have hlists : s.pollList a = s'.pollList a := by
    unfold pollList paneList
    rw [show s.panes = s'.panes from congrArg Known.panes h]
  rw [pollInputs, pollInputs, polls_congr h, hlists]

/-- A poll keeps what is known of a pane that is still listed, and drops the rest. -/
theorem memory_pollPanes (hb : Settling.Backed s) {sessions : List SessionInfo}
    (hs : a.sessions = .ok sessions) : (s.pollPanes a).1.memory p =
      if paneExists (s.pollPanes a).1.panes p then { s.memory p with listed := true }
      else ⟨none, false, none, false⟩ := by
  simp only [pollPanes, hs]
  generalize (Machine.run (pollSession s.panes a.panes) _ _).fresh = fresh
  have hscrape := ScrapeTracker.get_forget_all Prod.fst
    ((allPanes s.panes).filter fun x => !paneExists fresh x.1) s.scrape p
  have hgone : p ∈ ((allPanes s.panes).filter fun x => !paneExists fresh x.1).map Prod.fst ↔
      paneExists s.panes p ∧ paneExists fresh p = false := by
    rw [← Settling.mem_allPanes]
    simp only [List.mem_map, List.mem_filter, Bool.not_eq_true']
    constructor
    · rintro ⟨x, ⟨hx, hf⟩, rfl⟩
      exact ⟨⟨x, hx, rfl⟩, hf⟩
    · rintro ⟨⟨x, hx, rfl⟩, hf⟩
      exact ⟨x, ⟨hx, hf⟩, rfl⟩
  have hbinding := OrderedMap.getElem?_filter_key (paneExists fresh) s.agents p
  simp only [hgone] at hscrape
  by_cases hx : paneExists fresh p
  · rw [if_pos hx] at hbinding ⊢
    ext1
    · exact hbinding
    · simp [memory, hx]
    · exact hscrape.trans (if_neg (by simp [hx]))
    · exact hx
  · rw [if_neg hx] at hbinding ⊢
    ext1
    · exact hbinding
    · simp [memory, hx]
    · refine hscrape.trans ?_
      split_ifs with hold
      · rfl
      · by_contra hne
        exact hold ⟨(hb p hne).2, by simpa using hx⟩
    · exact Bool.eq_false_iff.mpr hx

theorem memory_poll (hb : Settling.Backed s) {sessions : List SessionInfo}
    (hs : s.polls nowMs a = some sessions) : (s.pollIfDue nowMs a).1.memory p =
      if (s.pollList a sessions p.session).any fun ps => ps.any (·.id = p.paneId) then
        { s.memory p with listed := true }
      else ⟨none, false, none, false⟩ := by
  have hlists : ∀ name, (s.pollIfDue nowMs a).1.paneList name = s.pollList a sessions name := by
    obtain ⟨hnone, -⟩ | ⟨sessions', hsome, -, hlists, -⟩ := pollIfDue_cases s nowMs a
    · cases hs.symm.trans hnone
    · obtain rfl := Option.some.inj (hs.symm.trans hsome)
      exact hlists
  rw [← hlists]
  unfold polls at hs
  split_ifs at hs with hdue
  simp only [pollIfDue, hdue, if_true]
  have hb' : Settling.Backed { s with lastPanePoll := some nowMs } := hb
  cases hsessions : a.sessions with
  | error e => simp [hsessions, Except.toOption] at hs
  | ok sessions' => exact memory_pollPanes hb' hsessions

theorem memory_poll_none (hs : s.polls nowMs a = none) :
    (s.pollIfDue nowMs a).1.memory p = s.memory p := by
  unfold polls at hs
  unfold pollIfDue
  split_ifs at hs ⊢ with hdue
  · cases hsessions : a.sessions with
    | error e =>
      simp only [pollPanes, hsessions]
      rfl
    | ok sessions' => simp [hsessions, Except.toOption] at hs
  · rfl

theorem logs_poll (hb : Settling.Backed s) :
    PaneMemory.Logs lib (s.memory p)
      ((s.pollInputs p nowMs a).map .inl) ((s.pollIfDue nowMs a).1.memory p) := by
  unfold pollInputs
  cases hs : s.polls nowMs a with
  | none =>
    rw [memory_poll_none hs]
    exact .nil _
  | some sessions =>
    rw [memory_poll hb hs]
    simp only
    split_ifs with hlisted
    · exact Machine.Logs.single PaneInput.listed trivial
    · refine Machine.Logs.single (PaneInput.unlisted _) ?_
      -- a list that was answered lacks the pane, and a list that was kept lacked it before
      simp only [PaneMemory.Enabled, toldGone, memory, Bool.or_eq_true, Bool.not_eq_true']
      unfold pollList at hlisted
      by_cases hlive : sessionLive sessions p.session
      · rw [if_pos hlive] at hlisted
        cases hps : a.panes p.session with
        | ok ps =>
          rw [hps] at hlisted
          exact .inl (.inr (by simpa [Except.toOption] using hlisted))
        | error e =>
          rw [hps] at hlisted
          exact .inr (Bool.eq_false_iff.mpr hlisted)
      · exact .inl (.inl (by simpa using hlive))

theorem scraped_scrapeEvent (pane : PaneRef) (agent : String) (state : AgentState) :
    (scrapeEvent pane agent state nowMs).scraped p = if pane = p then some (agent, state) else none := by
  simp [ProbeMsg.scraped, scrapeEvent]

/-- Binding a dumped pane is what its memory says. -/
theorem memory_bindScrape (info : PaneInfo) (screen : String) :
    ((s.bindScrape p info screen nowMs).1.memory p, (s.bindScrape p info screen nowMs).2.1,
      (s.bindScrape p info screen nowMs).2.2.filterMap (·.scraped p)) =
      (s.memory p).bind s.rules info screen := by
  have hset (b : Binding) : memory { s with agents := s.agents.insert p b } p =
      { s.memory p with binding := some b } := by
    ext1 <;> simp [memory, Settling.binding_insert]
  have hleft : memory { s with agents := s.agents.erase p, scrape := s.scrape.forget p } p =
      { s.memory p with binding := none, history := none } := by
    ext1 <;> simp [memory, binding, ScrapeTracker.get_forget]
  have hfree : memory { s with exitHold := s.exitHold.erase p } p =
      { s.memory p with held := false } := by
    ext1 <;> simp [memory, binding]
  have hb : (s.memory p).binding = s.binding p := rfl
  have hh : (s.memory p).held = decide (p ∈ s.exitHold) := rfl
  unfold bindScrape PaneMemory.bind
  cases hbound : s.binding p with
  | some b =>
    rw [hb, hbound]
    simp only
    split_ifs <;> simp [hset, hleft, scraped_scrapeEvent]
  | none =>
    rw [hb, hbound]
    simp only
    cases s.rules.identify info.title info.command screen with
    | none => simp [hfree, hb, hbound]
    | some agent =>
      simp only [hh, decide_eq_true_eq]
      split_ifs <;> simp [hset, scraped_scrapeEvent, hh]

/-- Binding a dumped pane leaves the other panes alone. -/
theorem memory_bindScrape_ne {pane : PaneRef} (h : pane ≠ p) (info : PaneInfo) (screen : String) :
    (s.bindScrape pane info screen nowMs).1.memory p = s.memory p := by
  have hcase := bindCase s nowMs pane info screen
  generalize s.bindScrape pane info screen nowMs = r at hcase
  cases hcase <;> ext1 <;>
    simp [memory, binding, ExtTreeMap.getElem?_insert, ExtTreeMap.getElem?_erase,
      ScrapeTracker.get_forget, h, Ne.symm h]

theorem observe_get (rules : CompiledRules) (agent screen : String) :
    ((s.scrape.observe lib rules agent p screen nowMs).1.get p,
      (s.scrape.observe lib rules agent p screen nowMs).2) =
      PaneMemory.observe lib rules agent (s.scrape.get p) screen nowMs := by
  unfold ScrapeTracker.observe PaneMemory.observe
  cases rules.rule agent with
  | none => rfl
  | some rule =>
    cases s.scrape.get p with
    | none => simp [ScrapeTracker.get]
    | some p => simp [ScrapeTracker.get]

theorem scraped_report (failing : Finset Scope) (scope : Scope) (code text : String) :
    (report failing scope (.error code text)).2.filterMap (·.scraped p) = [] := by
  simp only [report]
  split_ifs <;> rfl

/-- A dump is a step of the pane. -/
theorem memory_scrapePane {info : PaneInfo} {screen : String} (hd : a.dump p = .ok screen) :
    ((scrapePane lib a.dump nowMs s (p, info)).1.memory p,
      (scrapePane lib a.dump nowMs s (p, info)).2.filterMap (·.scraped p)) =
      (s.memory p).step lib (.dump s.rules info screen nowMs) := by
  have hcase := scrapeCase lib s nowMs a.dump p info
  have hbound : _ = (s.memory p).bind s.rules info screen := @memory_bindScrape p
    { s with failing := s.failing.erase (.dump p) } nowMs info screen
  have hknown := known_bindScrape { s with failing := s.failing.erase (.dump p) } nowMs p info screen
  generalize scrapePane lib a.dump nowMs s (p, info) = r at hcase
  cases hcase with
  | failed hdump => cases hd.symm.trans hdump
  | unbound hdump hbind =>
    obtain rfl := Except.ok.inj (hd.symm.trans hdump)
    rw [hbind] at hbound
    simp only [PaneMemory.step, ← hbound]
  | @observed _ agent s' out hdump hbind =>
    obtain rfl := Except.ok.inj (hd.symm.trans hdump)
    rw [hbind] at hbound hknown
    have hrules : s'.rules = s.rules := congrArg Known.rules hknown
    have hobserve := @observe_get lib p s' nowMs s.rules agent screen
    have hhistory : (s'.memory p).history = s'.scrape.get p := rfl
    simp only [PaneMemory.step, ← hbound, hrules, hhistory, ← hobserve, List.filterMap_append]
    congr 1
    cases (s'.scrape.observe lib s.rules agent p screen nowMs).2 <;> simp [scraped_scrapeEvent]

/-- A visit of another pane changes and tells nothing. -/
theorem memory_scrapePane_ne {target : PaneRef × PaneInfo} (h : target.1 ≠ p) :
    (scrapePane lib a.dump nowMs s target).1.memory p = s.memory p ∧
      (scrapePane lib a.dump nowMs s target).2.filterMap (·.scraped p) = [] := by
  obtain ⟨pane, info⟩ := target
  constructor
  · have hcase := scrapeCase lib s nowMs a.dump pane info
    have hbound := fun screen => @memory_bindScrape_ne p
      { s with failing := s.failing.erase (.dump pane) } nowMs pane h info screen
    generalize scrapePane lib a.dump nowMs s (pane, info) = r at hcase
    cases hcase with
    | failed => rfl
    | @unbound screen _ _ _ hbind =>
      have hmem := hbound screen
      rwa [hbind] at hmem
    | @observed screen agent s' _ _ hbind =>
      have hmem := hbound screen
      rw [hbind] at hmem
      refine Eq.trans ?_ hmem
      ext1 <;> simp [memory, binding, ScrapeTracker.get_observe h]
  · refine List.filterMap_eq_nil_iff.mpr fun msg hm => ?_
    rcases scrapePane_tells lib s nowMs msg hm with ⟨code, text, rfl⟩ | ⟨agent, state, rfl⟩
    · rfl
    · rw [scraped_scrapeEvent, if_neg h]

/-- One visit of a scrape. -/
theorem logs_visit {target : PaneRef × PaneInfo} (ht : paneExists s.panes target.1) :
    PaneMemory.Logs lib (s.memory p) (s.visit lib p nowMs a target).2
      ((s.visit lib p nowMs a target).1.memory p) := by
  by_cases hp : target.1 = p
  · obtain ⟨pane, info⟩ := target
    subst hp
    cases hd : a.dump pane with
    | error e =>
      have hcase := scrapeCase lib s nowMs a.dump pane info
      simp only [visit]
      generalize scrapePane lib a.dump nowMs s (pane, info) = r at hcase
      cases hcase with
      | failed hdump =>
        simp only [hd, scraped_report, if_true]
        exact .nil _
      | unbound hdump => cases hd.symm.trans hdump
      | observed hdump => cases hd.symm.trans hdump
    | ok screen =>
      have hmem := @memory_scrapePane lib pane s nowMs a info screen hd
      have hlog := @Machine.Logs.single _ _ _ (PaneMemory.step lib) PaneMemory.Enabled
        (s.memory pane) (.dump s.rules info screen nowMs) ht
      rw [← hmem] at hlog
      simp only [visit, hd, if_true]
      exact hlog
  · obtain ⟨hmem, hout⟩ := @memory_scrapePane_ne lib p s nowMs a target hp
    simp only [visit, hp, if_false, hout, hmem]
    exact .nil _

theorem logs_visits {targets : List (PaneRef × PaneInfo)}
    (ht : ∀ t ∈ targets, paneExists s.panes t.1) :
    PaneMemory.Logs lib (s.memory p) (Machine.outputs (visit lib p nowMs a) s targets)
      ((Machine.run (scrapePane lib a.dump nowMs) s targets).memory p) := by
  induction targets generalizing s with
  | nil => exact .nil _
  | cons t targets ih =>
    have hpanes : (scrapePane lib a.dump nowMs s t).1.panes = s.panes :=
      congrArg Known.panes (known_scrapePane lib s nowMs a.dump t)
    refine (logs_visit (ht t List.mem_cons_self)).trans (ih fun t' ht' => ?_)
    exact hpanes ▸ ht t' (List.mem_cons_of_mem _ ht')

theorem logs_tick (hb : Settling.Backed s) :
    PaneMemory.Logs lib (s.memory p) (s.story lib p (.tick nowMs a))
      ((s.tick lib nowMs a).1.memory p) := by
  have hpoll : PaneMemory.Logs lib ((s.drained nowMs a).memory p)
      ((s.pollInputs p nowMs a).map .inl) ((s.polled nowMs a).memory p) := by
    rw [pollInputs_congr (known_drained s nowMs a).symm]
    exact logs_poll hb.drained
  refine (logs_drained.trans hpoll).trans ?_
  rw [tick_fst, scrapeIfDue]
  split_ifs
  · exact @logs_visits lib p (s.scraping nowMs a) nowMs a _ Settling.targets_exist
  · exact .nil _

theorem logs_handle (b : HandleAnswers) (msg : AppMsg) :
    PaneMemory.Logs lib (s.memory p) (s.story lib p (.app b msg))
      ((s.handle lib b msg).1.memory p) := by
  cases msg with
  | setRules rules =>
    simp only [story, handle]
    cases CompiledRules.compile lib rules with
    | error e => exact .nil _
    | ok compiled => exact Machine.Logs.single PaneInput.newRules trivial
  | _ => exact .nil _

theorem backed_handle (hb : Settling.Backed s) (b : HandleAnswers) (msg : AppMsg) :
    Settling.Backed (s.handle lib b msg).1 := by
  cases msg with
  | setRules rules =>
    simp only [handle]
    split
    · intro q hq
      simp [ScrapeTracker.reset, ScrapeTracker.new, ScrapeTracker.get] at hq
    · exact hb
  | _ => exact hb

theorem backed_step (hb : Settling.Backed s) (i : Input) : Settling.Backed (s.step lib i).1 := by
  cases i with
  | tick nowMs a => exact hb.tick
  | app b msg => exact backed_handle hb b msg

/-- A step of the server, seen from a pane. -/
theorem logs_step (hb : Settling.Backed s) (i : Input) :
    PaneMemory.Logs lib (s.memory p) (s.story lib p i) ((s.step lib i).1.memory p) := by
  cases i with
  | tick nowMs a => exact logs_tick hb
  | app b msg => exact logs_handle b msg

/-- A run of the server, seen from a pane. -/
theorem logs_run (hb : Settling.Backed s) (is : List Input) :
    PaneMemory.Logs lib (s.memory p) (s.stories lib p is)
      ((Machine.run (step lib) s is).memory p) :=
  Machine.Logs.run (P := Settling.Backed) (Q := fun _ => True)
    (fun _ i hb _ => ⟨backed_step hb i, logs_step hb i⟩) hb fun _ _ => trivial

theorem stories_concat (is : List Input) (i : Input) : s.stories lib p (is ++ [i]) =
    s.stories lib p is ++ (Machine.run (step lib) s is).story lib p i := by
  rw [stories, Machine.outputs_concat]
  rfl

/-- The scrape events in a story. -/
def told (h : List (PaneInput ⊕ Scraped)) : List Scraped := h.filterMap Sum.getRight?

theorem told_append (h h' : List (PaneInput ⊕ Scraped)) : told (h ++ h') = told h ++ told h' :=
  List.filterMap_append

@[simp] theorem told_inputs (is : List PaneInput) : told (is.map .inl) = [] := by
  simp [told, List.filterMap_map, Function.comp_def]

@[simp] theorem told_outputs (out : List Scraped) : told (out.map .inr) = out := by
  simp [told, List.filterMap_map, Function.comp_def]

theorem told_visit (target : PaneRef × PaneInfo) : told (s.visit lib p nowMs a target).2 =
    (scrapePane lib a.dump nowMs s target).2.filterMap (·.scraped p) := by
  simp only [visit, told_append, told_outputs]
  split_ifs
  · cases a.dump p <;> rfl
  · rfl

theorem told_visits (targets : List (PaneRef × PaneInfo)) :
    told (Machine.outputs (visit lib p nowMs a) s targets) =
      (Machine.outputs (scrapePane lib a.dump nowMs) s targets).filterMap (·.scraped p) := by
  induction targets generalizing s with
  | nil => rfl
  | cons t targets ih =>
    rw [Machine.outputs_cons, Machine.outputs_cons, told_append, List.filterMap_append, told_visit]
    exact congrArg _ ih

/-- Before it scrapes, a tick tells no scrape event. -/
theorem scraped_news : (s.news nowMs a).filterMap (·.scraped p) = [] := by
  refine List.filterMap_eq_nil_iff.mpr fun msg hm => ?_
  simp only [news, List.mem_append] at hm
  rcases hm with (hm | hm) | hm
  · obtain ⟨code, text, rfl⟩ := runCleanup_tells s nowMs a msg hm
    rfl
  · obtain ⟨errors, herrors, hout⟩ := drainSpool_tells (s.runCleanup nowMs a).1 a
    rw [hout] at hm
    rcases List.mem_append.mp hm with hm | hm
    · obtain ⟨code, text, rfl⟩ := herrors msg hm
      rfl
    · obtain ⟨ev, hev, rfl⟩ := List.mem_map.mp hm
      simp [ProbeMsg.scraped, source_readEvents hev]
  · rcases pollIfDue_tells (s.drained nowMs a) nowMs a msg hm with
      ⟨code, text, rfl⟩ | ⟨sessions, rfl⟩ | ⟨session, ps, rfl⟩ <;> rfl

/-- A story holds every scrape event of its pane. -/
theorem told_story (i : Input) :
    told (s.story lib p i) = (s.step lib i).2.filterMap (·.scraped p) := by
  cases i with
  | tick nowMs a =>
    have htick : (s.tick lib nowMs a).2 =
        s.news nowMs a ++ ((s.polled nowMs a).scrapeIfDue lib nowMs a).2 := tick_snd lib s nowMs a
    simp only [story, step, htick, told_append, told_inputs, List.filterMap_append, scraped_news,
      List.nil_append, scrapeIfDue]
    split_ifs
    · exact told_visits _
    · rfl
  | app b msg =>
    have hout : (s.handle lib b msg).2.2.filterMap (·.scraped p) = [] := by
      refine List.filterMap_eq_nil_iff.mpr fun m hm => ?_
      obtain ⟨code, text, rfl⟩ := handle_tells lib s b msg m hm
      rfl
    simp only [step, hout]
    cases msg with
    | setRules rules =>
      simp only [story]
      split <;> rfl
    | _ => rfl

theorem told_stories (is : List Input) : told (s.stories lib p is) =
    (Machine.outputs (step lib) s is).filterMap (·.scraped p) := by
  induction is generalizing s with
  | nil => rfl
  | cons i is ih =>
    rw [stories, Machine.outputs_cons, Machine.outputs_cons, told_append, List.filterMap_append,
      told_story]
    exact congrArg _ ih

end Simulation

end Server

end MultiAi
