import MultiAi.Relay.Delivery

/-! # A server and the monitor it reports to

Every message of a tick is applied in order, each at some time of the app.
-/

namespace MultiAi

open Std Spool

/-- The key of the agent in a pane. -/
def PaneRef.key (host : String) (p : PaneRef) : AgentKey := ⟨host, p.session, p.paneId⟩

theorem PaneRef.key_inj {host : String} {p q : PaneRef} : p.key host = q.key host ↔ p = q := by
  cases p
  cases q
  simp [PaneRef.key]

namespace Monitor

/-- Apply a message of host `id` at some time. -/
def take (id : String) (m : Monitor) (msg : ProbeMsg × ℕ) : Monitor × List Update :=
  m.apply id (.msg msg.1) msg.2

variable {m : Monitor} {id : String} {key : AgentKey}

theorem get_take (msg : ProbeMsg × ℕ) :
    (m.take id msg).1.tracker.get key =
      onMsg m.tracker.cfg key id msg.1 msg.2 (m.tracker.get key) :=
  get_apply m id msg.2 (.msg msg.1) key

@[simp] theorem cfg_take (msg : ProbeMsg × ℕ) : (m.take id msg).1.tracker.cfg = m.tracker.cfg :=
  cfg_apply ..

theorem cfg_run_take (msgs : List (ProbeMsg × ℕ)) :
    (Machine.run (take id) m msgs).tracker.cfg = m.tracker.cfg :=
  Machine.run_frame (fun m : Monitor => m.tracker.cfg) (fun _ _ => cfg_take _) _ _

/-- Messages that leave the record of an agent alone. -/
theorem get_run_take {msgs : List (ProbeMsg × ℕ)}
    (h : ∀ msg ∈ msgs, ∀ cfg nowMs r, onMsg cfg key id msg.1 nowMs r = r) :
    (Machine.run (take id) m msgs).tracker.get key = m.tracker.get key := by
  induction msgs generalizing m with
  | nil => rfl
  | cons msg msgs ih =>
    rw [Machine.run_cons, ih fun msg hm => h msg (List.mem_cons_of_mem _ hm), get_take]
    exact h msg List.mem_cons_self _ _ _

theorem get_run_take_errors {msgs : List (ProbeMsg × ℕ)}
    (h : ∀ msg ∈ msgs, ∃ code text, msg.1 = .error code text) :
    (Machine.run (take id) m msgs).tracker.get key = m.tracker.get key := by
  refine get_run_take fun msg hm cfg nowMs r => ?_
  obtain ⟨code, text, he⟩ := h msg hm
  rw [he]
  rfl

/-- The offset of the last hook event the tracker accepted for an agent. -/
def offset (m : Monitor) (key : AgentKey) : Option ℕ :=
  (m.tracker.get key).bind (·.lastHookOffset)

/-- Messages without hook events move no offset. -/
theorem offset_run_take {msgs : List (ProbeMsg × ℕ)} (h : ∀ msg ∈ msgs, msg.1.hook = none) :
    (Machine.run (take id) m msgs).offset key = m.offset key := by
  induction msgs generalizing m with
  | nil => rfl
  | cons msg msgs ih =>
    rw [Machine.run_cons, ih fun msg hm => h msg (List.mem_cons_of_mem _ hm), offset, get_take]
    refine Relay.lastHookOffset_onMsg fun ev he => ?_
    rw [h msg List.mem_cons_self] at he
    cases he

end Monitor

namespace Server

/-- What the spool does not change: the settings and the lists of the last poll. -/
structure Known where
  zellij : Bool
  rules : CompiledRules
  intervals : Intervals
  lastPanePoll : Option ℕ
  lastScrape : Option ℕ
  sessions : Option (List SessionInfo)
  panes : PaneLists

def known (s : Server) : Known :=
  ⟨s.zellij, s.rules, s.intervals, s.lastPanePoll, s.lastScrape, s.sessions, s.panes⟩

variable (lib : ScrapeLib) (s : Server) (nowMs : ℕ) (a : TickAnswers)

/-- The server of a tick after its new records were read. -/
def drained : Server := ((s.runCleanup nowMs a).1.drainSpool a).1

/-- The server of a tick after its poll. -/
def polled : Server := ((s.drained nowMs a).pollIfDue nowMs a).1

/-- The server of a tick when it starts to scrape. -/
def scraping : Server := { s.polled nowMs a with lastScrape := some nowMs }

/-- What a tick tells before it scrapes. -/
def news : List ProbeMsg :=
  (s.runCleanup nowMs a).2 ++ ((s.runCleanup nowMs a).1.drainSpool a).2 ++
    ((s.drained nowMs a).pollIfDue nowMs a).2

theorem tick_fst : (s.tick lib nowMs a).1 = ((s.polled nowMs a).scrapeIfDue lib nowMs a).1 := rfl

theorem tick_snd : (s.tick lib nowMs a).2 =
    (s.runCleanup nowMs a).2 ++ ((s.runCleanup nowMs a).1.drainSpool a).2 ++
      ((s.drained nowMs a).pollIfDue nowMs a).2 ++
      ((s.polled nowMs a).scrapeIfDue lib nowMs a).2 := rfl

theorem known_runCleanup : (s.runCleanup nowMs a).1.known = s.known := by
  unfold runCleanup
  split_ifs
  · split <;> rfl
  · rfl

theorem known_drainRecord (entry : ℕ × SpoolRecord) : (drainRecord s entry).1.known = s.known := by
  simp only [drainRecord, bindRecord]
  split_ifs <;> rfl

theorem known_drainSpool : (s.drainSpool a).1.known = s.known := by
  unfold drainSpool
  split
  · rfl
  · exact Machine.run_frame _ known_drainRecord _ _

theorem known_drained : (s.drained nowMs a).known = s.known :=
  (known_drainSpool ..).trans (known_runCleanup ..)

theorem outputs_drainRecord (records : List (ℕ × SpoolRecord)) :
    Machine.outputs drainRecord s records = (recordEvents records).map .agentEvent := by
  induction records generalizing s with
  | nil => rfl
  | cons entry records ih =>
    obtain ⟨cursor, r⟩ := entry
    rw [Machine.outputs_cons, ih, recordEvents_cons, List.map_append]
    cases he : r.event cursor <;> simp [drainRecord, he]

/-- The hook events a tick reads. -/
def readEvents (a : TickAnswers) : List AgentEvent :=
  match a.read with
  | .ok r => recordEvents r.records
  | .error _ => []

theorem source_readEvents {a : TickAnswers} {ev : AgentEvent} (h : ev ∈ readEvents a) :
    ev.source = .hook := by
  unfold readEvents at h
  split at h
  · exact (mem_recordEvents h).1
  · cases h

/-- Reading the spool tells of failures, then of the hook events read. -/
theorem drainSpool_tells : ∃ errors : List ProbeMsg,
    (∀ msg ∈ errors, ∃ code text, msg = .error code text) ∧
      (s.drainSpool a).2 = errors ++ (readEvents a).map .agentEvent := by
  cases h : a.read with
  | error e =>
    refine ⟨(s.drainSpool a).2, fun msg hm => ?_, ?_⟩
    · simp only [drainSpool, h] at hm
      split_ifs at hm
      · cases hm
      · exact ⟨_, _, List.mem_singleton.mp hm⟩
    · rw [readEvents, h, List.map_nil, List.append_nil]
  | ok r =>
    simp only [drainSpool, readEvents, h, outputs_drainRecord]
    refine ⟨_, fun msg hm => ?_, rfl⟩
    split_ifs at hm
    · exact ⟨_, _, List.mem_singleton.mp hm⟩
    · cases hm

theorem report_tells (failing : Finset Scope) (scope : Scope) (code text : String) :
    ∀ msg ∈ (report failing scope (.error code text)).2, ∃ code text, msg = .error code text := by
  intro msg hm
  simp only [report] at hm
  split_ifs at hm
  · cases hm
  · exact ⟨_, _, List.mem_singleton.mp hm⟩

theorem runCleanup_tells : ∀ msg ∈ (s.runCleanup nowMs a).2, ∃ code text, msg = .error code text := by
  intro msg hm
  unfold runCleanup at hm
  split_ifs at hm
  · split at hm
    · cases hm
    · exact report_tells _ _ _ _ msg hm
  · cases hm

/-- The session list a tick learns, if it polls and is answered. -/
def polls : Option (List SessionInfo) :=
  if s.zellij && due s.lastPanePoll s.intervals.panePollMs nowMs then a.sessions.toOption else none

theorem polls_congr {s s' : Server} (h : s.known = s'.known) (nowMs : ℕ) (a : TickAnswers) :
    s.polls nowMs a = s'.polls nowMs a := by
  unfold polls
  rw [show s.zellij = s'.zellij from congrArg Known.zellij h,
    show s.lastPanePoll = s'.lastPanePoll from congrArg Known.lastPanePoll h,
    show s.intervals = s'.intervals from congrArg Known.intervals h]

variable {s nowMs a} in
theorem answer_of_polls {sessions : List SessionInfo} (h : s.polls nowMs a = some sessions) :
    a.sessions = .ok sessions := by
  unfold polls at h
  split_ifs at h
  cases hs : a.sessions with
  | ok sessions' => exact congrArg Except.ok (by simpa [hs, Except.toOption] using h)
  | error e => simp [hs, Except.toOption] at h

/-- The pane list of a session after a poll. -/
def pollList (sessions : List SessionInfo) (name : String) : Option (List PaneInfo) :=
  if sessionLive sessions name then
    match a.panes name with
    | .ok ps => some ps
    | .error _ => s.paneList name
  else none

theorem pollSession_fresh (old : PaneLists) (panes : String → Except String (List PaneInfo))
    (acc : Polling) (live : List SessionInfo) (name : String) :
    (Machine.run (pollSession old panes) acc live).fresh[name]? =
      if live.any (·.name = name) then
        match panes name with
        | .ok ps => some ps
        | .error _ => old[name]?.or acc.fresh[name]?
      else acc.fresh[name]? := by
  induction live generalizing acc with
  | nil => rfl
  | cons x live ih =>
    have hstep : (pollSession old panes acc x).1.fresh[name]? =
        if x.name = name then
          match panes name with
          | .ok ps => some ps
          | .error _ => old[name]?.or acc.fresh[name]?
        else acc.fresh[name]? := by
      by_cases hx : x.name = name
      · subst hx
        rw [if_pos rfl]
        simp only [pollSession]
        cases hp : panes x.name with
        | ok ps => simp
        | error e => cases ho : old[x.name]? <;> simp
      · rw [if_neg hx]
        simp only [pollSession]
        cases hp : panes x.name with
        | ok ps => simp [ExtTreeMap.getElem?_insert, hx]
        | error e => cases ho : old[x.name]? <;> simp [ExtTreeMap.getElem?_insert, hx]
    rw [Machine.run_cons, ih, hstep, List.any_cons]
    by_cases hx : x.name = name <;> by_cases hl : live.any (·.name = name) <;>
      cases panes name <;> cases old[name]? <;> simp [hx, hl]

theorem any_liveSessions (sessions : List SessionInfo) (name : String) :
    (liveSessions sessions).any (·.name = name) = sessionLive sessions name := by
  simp only [liveSessions, sessionLive, List.any_filter]
  congr 1
  ext x
  exact Bool.and_comm _ _

/-- A poll that is answered replaces the lists and tells what is new; otherwise only
failures are told. -/
theorem pollIfDue_cases :
    (s.polls nowMs a = none ∧ (s.pollIfDue nowMs a).1.sessions = s.sessions ∧
      (s.pollIfDue nowMs a).1.panes = s.panes ∧
      ∀ msg ∈ (s.pollIfDue nowMs a).2, ∃ code text, msg = .error code text) ∨
    ∃ sessions, s.polls nowMs a = some sessions ∧
      (s.pollIfDue nowMs a).1.sessions = some sessions ∧
      (∀ name, (s.pollIfDue nowMs a).1.paneList name = s.pollList a sessions name) ∧
      (s.pollIfDue nowMs a).2 = (if s.sessions = some sessions then [] else [.sessions sessions]) ++
        Machine.outputs (pollSession s.panes a.panes) ⟨s.failing.erase .sessions, ∅⟩
          (liveSessions sessions) := by
  unfold polls pollIfDue
  by_cases hdue : s.zellij && due s.lastPanePoll s.intervals.panePollMs nowMs
  · simp only [if_pos hdue]
    cases hs : a.sessions with
    | error e =>
      refine .inl ⟨rfl, ?_, ?_, fun msg hm => ?_⟩
      · simp only [pollPanes, hs]
      · simp only [pollPanes, hs]
      · simp only [pollPanes, hs] at hm
        exact report_tells _ _ _ _ msg hm
    | ok sessions =>
      refine .inr ⟨sessions, rfl, ?_, fun name => ?_, ?_⟩
      · simp only [pollPanes, hs]
      · simp only [pollPanes, hs, paneList, pollSession_fresh, any_liveSessions, pollList]
        by_cases hl : sessionLive sessions name <;> cases a.panes name <;> simp [hl]
      · simp only [pollPanes, hs]
  · rw [if_neg hdue, if_neg hdue]
    exact .inl ⟨rfl, rfl, rfl, fun msg hm => absurd hm List.not_mem_nil⟩

/-- A poll tells of failures and of lists. -/
theorem pollIfDue_tells : ∀ msg ∈ (s.pollIfDue nowMs a).2, (∃ code text, msg = .error code text) ∨
    (∃ sessions, msg = .sessions sessions) ∨ ∃ session ps, msg = .panes session ps := by
  intro msg hm
  rcases pollIfDue_cases s nowMs a with ⟨-, -, -, hout⟩ | ⟨sessions, -, -, -, hout⟩
  · exact .inl (hout msg hm)
  · rw [hout] at hm
    rcases List.mem_append.mp hm with hm | hm
    · split_ifs at hm
      · cases hm
      · exact .inr (.inl ⟨_, List.mem_singleton.mp hm⟩)
    · obtain ⟨acc, session, -, hm⟩ := Machine.exists_of_mem_outputs hm
      simp only [pollSession] at hm
      split at hm
      · split_ifs at hm
        · cases hm
        · exact .inr (.inr ⟨_, _, List.mem_singleton.mp hm⟩)
      · exact .inl (report_tells _ _ _ _ msg hm)

theorem known_bindScrape (pane : PaneRef) (p : PaneInfo) (screen : String) :
    (s.bindScrape pane p screen nowMs).1.known = s.known := by
  have hcase := bindCase s nowMs pane p screen
  generalize s.bindScrape pane p screen nowMs = r at hcase
  cases hcase <;> rfl

theorem known_scrapePane (dump : PaneRef → Except String String)
    (target : PaneRef × PaneInfo) : (scrapePane lib dump nowMs s target).1.known = s.known := by
  obtain ⟨pane, p⟩ := target
  have hcase := scrapeCase lib s nowMs dump pane p
  have hknown := fun screen => known_bindScrape
    { s with failing := s.failing.erase (.dump pane) } nowMs pane p screen
  generalize scrapePane lib dump nowMs s (pane, p) = r at hcase
  cases hcase with
  | failed => rfl
  | unbound _ hbind => exact (congrArg (·.1.known) hbind).symm.trans (hknown _)
  | observed _ hbind => exact (congrArg (·.1.known) hbind).symm.trans (hknown _)

/-- A scrape changes none of the lists. -/
theorem known_scrapePanes : (s.scrapePanes lib nowMs a).1.known = s.known :=
  Machine.run_frame _ (fun s t => known_scrapePane lib s nowMs _ t) _ _

/-- No tick changes the settings. -/
theorem settings_pollIfDue : (s.pollIfDue nowMs a).1.zellij = s.zellij ∧
    (s.pollIfDue nowMs a).1.rules = s.rules ∧
    (s.pollIfDue nowMs a).1.intervals = s.intervals ∧
    (s.pollIfDue nowMs a).1.lastScrape = s.lastScrape := by
  unfold pollIfDue pollPanes
  split_ifs
  · split <;> exact ⟨rfl, rfl, rfl, rfl⟩
  · exact ⟨rfl, rfl, rfl, rfl⟩

theorem settings_polled : (s.polled nowMs a).zellij = s.zellij ∧
    (s.polled nowMs a).rules = s.rules ∧ (s.polled nowMs a).intervals = s.intervals ∧
    (s.polled nowMs a).lastScrape = s.lastScrape := by
  have hknown := known_drained s nowMs a
  obtain ⟨hz, hr, hi, hl⟩ := settings_pollIfDue (s.drained nowMs a) nowMs a
  exact ⟨hz.trans (congrArg Known.zellij hknown), hr.trans (congrArg Known.rules hknown),
    hi.trans (congrArg Known.intervals hknown), hl.trans (congrArg Known.lastScrape hknown)⟩

theorem settings_tick : (s.tick lib nowMs a).1.zellij = s.zellij ∧
    (s.tick lib nowMs a).1.rules = s.rules ∧ (s.tick lib nowMs a).1.intervals = s.intervals := by
  obtain ⟨hz, hr, hi, -⟩ := settings_polled s nowMs a
  rw [tick_fst]
  unfold scrapeIfDue
  split_ifs
  · have hknown := known_scrapePanes lib { s.polled nowMs a with lastScrape := some nowMs } nowMs a
    exact ⟨(congrArg Known.zellij hknown).trans hz, (congrArg Known.rules hknown).trans hr,
      (congrArg Known.intervals hknown).trans hi⟩
  · exact ⟨hz, hr, hi⟩

theorem sessions_scrapeIfDue : (s.scrapeIfDue lib nowMs a).1.sessions = s.sessions := by
  unfold scrapeIfDue
  split_ifs
  · exact congrArg Known.sessions (known_scrapePanes ..)
  · rfl

theorem panes_scrapeIfDue : (s.scrapeIfDue lib nowMs a).1.panes = s.panes := by
  unfold scrapeIfDue
  split_ifs
  · exact congrArg Known.panes (known_scrapePanes ..)
  · rfl

/-- Binding a pane tells of this pane only. -/
theorem bindScrape_tells (pane : PaneRef) (p : PaneInfo) (screen : String) :
    ∀ msg ∈ (s.bindScrape pane p screen nowMs).2.2,
      ∃ agent state, msg = scrapeEvent pane agent state nowMs := by
  intro msg hm
  have hcase := bindCase s nowMs pane p screen
  generalize s.bindScrape pane p screen nowMs = r at hm hcase
  cases hcase with
  | left => exact ⟨_, _, List.mem_singleton.mp hm⟩
  | bound => exact ⟨_, _, List.mem_singleton.mp hm⟩
  | _ => cases hm

/-- A scrape tells of failures and of the pane it visits. -/
theorem scrapePane_tells {dump : PaneRef → Except String String} {target : PaneRef × PaneInfo} :
    ∀ msg ∈ (scrapePane lib dump nowMs s target).2, (∃ code text, msg = .error code text) ∨
      ∃ agent state, msg = scrapeEvent target.1 agent state nowMs := by
  obtain ⟨pane, p⟩ := target
  intro msg hm
  have hcase := scrapeCase lib s nowMs dump pane p
  have htells := fun screen => bindScrape_tells
    { s with failing := s.failing.erase (.dump pane) } nowMs pane p screen
  generalize scrapePane lib dump nowMs s (pane, p) = r at hm hcase
  cases hcase with
  | failed => exact .inl (report_tells _ _ _ _ msg hm)
  | @unbound screen _ _ _ hbind =>
    refine .inr (htells screen msg ?_)
    rwa [hbind]
  | @observed screen _ _ _ _ hbind =>
    rcases List.mem_append.mp hm with hm | hm
    · refine .inr (htells screen msg ?_)
      rwa [hbind]
    · obtain ⟨state, -, rfl⟩ := Option.map_eq_some_iff.mp (Option.mem_toList.mp hm)
      exact .inr ⟨_, _, rfl⟩

theorem scrapeIfDue_tells : ∀ msg ∈ (s.scrapeIfDue lib nowMs a).2,
    (∃ code text, msg = .error code text) ∨
      ∃ target ∈ s.targets, ∃ agent state, msg = scrapeEvent target.1 agent state nowMs := by
  intro msg hm
  unfold scrapeIfDue at hm
  split_ifs at hm
  · obtain ⟨s', target, ht, hm⟩ := Machine.exists_of_mem_outputs hm
    exact (scrapePane_tells lib s' nowMs msg hm).imp id fun h => ⟨target, ht, h⟩
  · cases hm

/-- A message of the app leaves the lists alone. -/
theorem lists_handle (b : HandleAnswers) (msg : AppMsg) :
    (s.handle lib b msg).1.sessions = s.sessions ∧ (s.handle lib b msg).1.panes = s.panes := by
  cases msg with
  | setRules rules =>
    simp only [handle]
    split <;> exact ⟨rfl, rfl⟩
  | _ => exact ⟨rfl, rfl⟩

/-- A scrape event leaves the agents of other panes alone. -/
theorem onMsg_scrapeEvent_ne {cfg : TrackerConfig} {host agent : String} {p q : PaneRef}
    {state : AgentState} {now : ℕ} {r : Option AgentRecord} (h : q ≠ p) :
    Monitor.onMsg cfg (p.key host) host (scrapeEvent q agent state nowMs) now r = r :=
  if_neg fun hk => h (PaneRef.key_inj.mp hk)

theorem mem_targets {target : PaneRef × PaneInfo} (h : target ∈ s.targets) :
    ∃ ps, s.paneList target.1.session = some ps ∧ target.2 ∈ ps ∧
      target.1.paneId = target.2.id ∧ target.2.exited = false := by
  obtain ⟨h, hexited⟩ := List.mem_filter.mp h
  obtain ⟨⟨session, ps⟩, hlist, h⟩ := List.mem_flatMap.mp h
  obtain ⟨p, hp, rfl⟩ := List.mem_map.mp h
  exact ⟨ps, ExtTreeMap.mem_toList_iff_getElem?_eq_some.mp hlist, hp, rfl, by simpa using hexited⟩

end Server

/-- A read that goes on behind `cursor`. -/
structure Spool.ReadResult.Forward (r : ReadResult) (cursor : ℕ) : Prop where
  le : cursor ≤ r.endCursor
  sorted : r.records.Pairwise (·.1 < ·.1)
  mem : ∀ x ∈ r.records, cursor < x.1 ∧ x.1 ≤ r.endCursor

theorem SpoolLog.Reads.forward {spool : SpoolLog} {cursor : ℕ} {r : ReadResult}
    (hspool : spool.Sorted) (h : spool.Reads cursor r) : r.Forward cursor where
  le := h.le
  sorted := h.records ▸ hspool.filter _
  mem x hx := by
    rw [h.records] at hx
    exact of_decide_eq_true (List.mem_filter.mp hx).2

/-- Messages that are all applied at one time. -/
def stamp (nowMs : ℕ) (out : List ProbeMsg) : List (ProbeMsg × ℕ) := out.map (·, nowMs)

@[simp] theorem map_fst_stamp (nowMs : ℕ) (out : List ProbeMsg) :
    (stamp nowMs out).map Prod.fst = out := by
  simp [stamp, Function.comp_def]

/-- A server and the monitor it reports to, after some ticks: every message was
applied in order, and the spool was read forward. -/
inductive Run (lib : ScrapeLib) (host : String) (s₀ : Server) (cfg : TrackerConfig) :
    List (ℕ × TickAnswers) → Server → Monitor → Prop
  | start : Run lib host s₀ cfg [] s₀ (.new cfg)
  | tick {ticks : List (ℕ × TickAnswers)} {s : Server} {m : Monitor} {nowMs : ℕ} {a : TickAnswers}
      {msgs : List (ProbeMsg × ℕ)} : Run lib host s₀ cfg ticks s m →
      (∀ r, a.read = .ok r → r.Forward s.readCursor) →
      msgs.map Prod.fst = (s.tick lib nowMs a).2 →
      Run lib host s₀ cfg (ticks ++ [(nowMs, a)]) (s.tick lib nowMs a).1
        (Machine.run (Monitor.take host) m msgs)

/-- A tick whose messages are applied at once. -/
def playTick (lib : ScrapeLib) (host : String) (x : Server × Monitor) (i : ℕ × TickAnswers) :
    Server × Monitor :=
  ((x.1.tick lib i.1 i.2).1,
    Machine.run (Monitor.take host) x.2 (stamp i.1 (x.1.tick lib i.1 i.2).2))

theorem Run.play {lib : ScrapeLib} {host : String} {s₀ : Server} {cfg : TrackerConfig}
    {ticks : List (ℕ × TickAnswers)} {x : Server × Monitor} {i : ℕ × TickAnswers}
    (h : Run lib host s₀ cfg ticks x.1 x.2)
    (hread : ∀ r, i.2.read = .ok r → r.Forward x.1.readCursor) :
    Run lib host s₀ cfg (ticks ++ [i]) (playTick lib host x i).1 (playTick lib host x i).2 :=
  h.tick hread (map_fst_stamp _ _)

end MultiAi
