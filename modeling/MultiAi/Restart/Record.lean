import MultiAi.Agreement.Watch

/-! # One agent of the monitor

While no list lacks its pane, the record of an agent is a machine that reads the events of
the pane, and its alerts are all that the monitor raises for it.
-/

namespace MultiAi

open Machine Server

/-- The event of a pane that a message carries. -/
def ProbeMsg.event (p : PaneRef) : ProbeMsg → Option AgentEvent
  | .agentEvent ev => if ev.pane = p then some ev else none
  | _ => none

/-- A message whose lists show a pane live. -/
def ProbeMsg.Spares (p : PaneRef) : ProbeMsg → Prop
  | .sessions live => sessionLive live p.session
  | .panes session ps => session = p.session → paneLive ps p.paneId
  | _ => True

/-- The alert of an agent that an update shows. -/
def Update.alertOf (key : AgentKey) : Update → Option Alert
  | .alert a => if a.key = key then some a else none
  | _ => none

/-- The alerts of an agent, in order. -/
def alertsOf (key : AgentKey) (out : List Update) : List Alert := out.filterMap (·.alertOf key)

namespace AgentRecord

/-- One event of the agent, and the alert it raises. -/
def step (cfg : TrackerConfig) (r : AgentRecord) (ev : AgentEvent) : AgentRecord × List Alert :=
  ((r.apply cfg ev).1, (r.apply cfg ev).2.toList)

variable {cfg : TrackerConfig} {r : AgentRecord} {ev : AgentEvent} {evs : List AgentEvent}

/-- A hook event that the record has seen. -/
def Seen (r : AgentRecord) (ev : AgentEvent) : Prop :=
  ∃ o, ev.spoolOffset = some o ∧ r.lastHookOffset.any (o ≤ ·)

theorem step_seen (hs : ev.source = .hook) (h : r.Seen ev) : r.step cfg ev = (r, []) := by
  obtain ⟨o, ho, hle⟩ := h
  have hstale : r.staleHook ev = true := by
    rw [staleHook, ho]
    exact hle
  have hignored : r.accept cfg ev = none := by
    rw [accept, hs]
    exact if_pos hstale
  rw [step, apply_of_ignored hignored]
  rfl

theorem lastHookOffset_step (hs : ev.source = .scrape) :
    (r.step cfg ev).1.lastHookOffset = r.lastHookOffset := by
  rw [step, apply_lastHookOffset, if_neg (by simp [hs])]

/-- Hook events that were seen change and alert nothing: only the scrapes count. -/
theorem run_seen (h : ∀ ev ∈ evs, ev.source = .hook → r.Seen ev) :
    run (step cfg) r evs = run (step cfg) r (evs.filter (·.source = .scrape)) ∧
      outputs (step cfg) r evs = outputs (step cfg) r (evs.filter (·.source = .scrape)) := by
  induction evs generalizing r with
  | nil => exact ⟨rfl, rfl⟩
  | cons ev evs ih =>
    have hrest : ∀ ev ∈ evs, ev.source = .hook → r.Seen ev :=
      fun ev hev => h ev (List.mem_cons_of_mem _ hev)
    cases hs : ev.source with
    | hook =>
      rw [List.filter_cons_of_neg (by simp [hs]), run_cons, outputs_cons,
        step_seen hs (h ev List.mem_cons_self hs)]
      exact ih hrest
    | scrape =>
      rw [List.filter_cons_of_pos (by simp [hs]), run_cons, run_cons, outputs_cons, outputs_cons]
      have hkeep : ∀ ev' ∈ evs, ev'.source = .hook → (r.step cfg ev).1.Seen ev' := by
        intro ev' hev' hs'
        rw [Seen, lastHookOffset_step hs]
        exact hrest ev' hev' hs'
      obtain ⟨hrun, hout⟩ := ih hkeep
      exact ⟨hrun, congrArg _ hout⟩

/-- Events of the state that the agent is in change and alert nothing. -/
theorem run_same (h : ∀ ev ∈ evs, ev.source = .scrape ∧ ev.state = r.state) :
    run (step cfg) r evs = r ∧ outputs (step cfg) r evs = [] := by
  induction evs with
  | nil => exact ⟨rfl, rfl⟩
  | cons ev evs ih =>
    obtain ⟨hs, hstate⟩ := h ev List.mem_cons_self
    have hstep : r.step cfg ev = (r, []) := by
      cases hacc : r.accept cfg ev with
      | none =>
        rw [step, apply_of_ignored hacc]
        rfl
      | some r' =>
        obtain ⟨-, rfl⟩ := (accept_scrape hs).mp hacc
        rw [step, apply_of_accept hacc, enter_same hstate.symm]
        rfl
    rw [run_cons, outputs_cons, hstep]
    exact ih fun ev hev => h ev (List.mem_cons_of_mem _ hev)

/-- An event of a state that does not alert raises no alert. -/
theorem outputs_calm (h : ∀ ev ∈ evs, isAlerting ev.state = false) :
    outputs (step cfg) r evs = [] := by
  induction evs generalizing r with
  | nil => rfl
  | cons ev evs ih =>
    have hnone : (r.apply cfg ev).2 = none := by
      by_contra hsome
      obtain ⟨a, ha⟩ := Option.ne_none_iff_exists'.mp hsome
      obtain ⟨⟨r', -, -, halerting⟩, -⟩ := enters_of_alert ha
      rw [h ev List.mem_cons_self] at halerting
      cases halerting
    rw [outputs_cons, ih fun ev hev => h ev (List.mem_cons_of_mem _ hev), step, hnone]
    rfl

/-- At time `t` neither hook authority nor the last alert holds a scrape event back. -/
structure Late (cfg : TrackerConfig) (t : ℕ) (r : AgentRecord) : Prop where
  hook : ∀ hookMs, r.lastHookMs = some hookMs → hookMs + cfg.hookAuthorityMs ≤ t
  alert : ∀ state alertMs, r.lastAlert = some (state, alertMs) → alertMs + cfg.alertDedupeMs ≤ t

theorem exists_late (cfg : TrackerConfig) (r : AgentRecord) : ∃ t, r.Late cfg t := by
  refine ⟨r.lastHookMs.getD 0 + cfg.hookAuthorityMs +
    ((r.lastAlert.map Prod.snd).getD 0 + cfg.alertDedupeMs), ?_, ?_⟩
  · intro hookMs hh
    simp only [hh, Option.getD_some]
    omega
  · intro state alertMs hl
    simp only [hl, Option.map_some, Option.getD_some]
    omega

theorem Late.mono {t t' : ℕ} (h : r.Late cfg t) (hle : t ≤ t') : r.Late cfg t' where
  hook hookMs hh := (h.hook hookMs hh).trans hle
  alert state alertMs hl := (h.alert state alertMs hl).trans hle

theorem Late.step (h : r.Late cfg ev.tsMs) (hs : ev.source = .scrape) :
    r.step cfg ev = ((r.enter cfg ev).1, (r.enter cfg ev).2.toList) := by
  have hfree : r.authoritative cfg ev = false := by
    rw [authoritative]
    cases hh : r.lastHookMs with
    | none => rfl
    | some hookMs =>
      have hle := h.hook hookMs hh
      exact decide_eq_false (by omega)
  rw [AgentRecord.step, apply_of_accept ((accept_scrape hs).mpr ⟨by rw [hfree]; rfl, rfl⟩)]

/-- A late agent is announced as unknown. -/
theorem Late.announce (h : r.Late cfg ev.tsMs) (hs : ev.source = .scrape) (hu : ev.state = .unknown) :
    (r.step cfg ev).2 = [] ∧ (r.step cfg ev).1.state = .unknown ∧
      ∀ t, r.Late cfg t → (r.step cfg ev).1.Late cfg t := by
  have hcalm : isAlerting ev.state = false := by
    rw [hu]
    rfl
  rw [h.step hs, enter]
  split_ifs with hsame
  · exact ⟨rfl, hsame.trans hu, fun _ ht => ht⟩
  · exact ⟨rfl, hu, fun _ ht => ⟨ht.hook, ht.alert⟩⟩
  · simp [hcalm] at *
  · simp [hcalm] at *

/-- A late agent that enters another alerting state raises an alert. -/
theorem Late.alerts (h : r.Late cfg ev.tsMs) (hs : ev.source = .scrape) (hne : r.state ≠ ev.state)
    (ha : isAlerting ev.state) : (r.step cfg ev).2 ≠ [] := by
  have hloud : r.silenced cfg ev = false := by
    rw [silenced]
    cases hl : r.lastAlert with
    | none => rfl
    | some last =>
      have hle := h.alert last.1 last.2 hl
      simp only [Option.any_some, Bool.and_eq_false_iff, decide_eq_false_iff_not]
      exact .inr (by omega)
  rw [h.step hs, enter, if_neg hne, if_neg (by simp [ha]), hloud]
  simp

end AgentRecord

namespace Monitor

variable {m : Monitor} {host : String} {p : PaneRef} {r : AgentRecord}

/-- A message that shows the pane live changes the record by its event only. -/
theorem onMsg_spared {cfg : TrackerConfig} {msg : ProbeMsg} {nowMs : ℕ} (hkey : r.key = p.key host)
    (h : msg.Spares p) : onMsg cfg (p.key host) host msg nowMs (some r) =
      some (run (AgentRecord.step cfg) r (msg.event p).toList) := by
  cases msg with
  | sessions sessions =>
    have hlive : isGone host none (fun s _ => sessionLive sessions s) r = false := by
      simp [isGone, hkey, PaneRef.key, show sessionLive sessions p.session = true from h]
    simp [onMsg, hlive, ProbeMsg.event]
  | panes session panes =>
    have hlive : isGone host (some session) (fun _ q => paneLive panes q) r = false := by
      by_cases he : session = p.session
      · simp [isGone, hkey, PaneRef.key, show paneLive panes p.paneId = true from h he]
      · simp [isGone, hkey, PaneRef.key, Ne.symm he]
    simp [onMsg, hlive, ProbeMsg.event]
  | agentEvent ev =>
    have hev : AgentKey.fromEvent host ev = p.key host ↔ ev.pane = p := PaneRef.key_inj
    by_cases hp : ev.pane = p
    · simp [onMsg, ProbeMsg.event, hev, hp, AgentRecord.step]
    · simp [onMsg, ProbeMsg.event, hev, hp]
  | metrics => rfl
  | error => rfl
  | hello => rfl
  | heartbeat => rfl

theorem alertsOf_append {key : AgentKey} (out out' : List Update) :
    alertsOf key (out ++ out') = alertsOf key out ++ alertsOf key out' := List.filterMap_append

theorem alertsOf_agents {key : AgentKey} (records : List AgentRecord) :
    alertsOf key (records.map .agent) = [] := by
  simp [alertsOf, List.filterMap_map, Update.alertOf]

theorem alertsOf_agentsGone {t : Tracker} {key : AgentKey} {id : String} {session : Option String}
    {live : String → ℕ → Bool} {nowMs : ℕ} :
    alertsOf key (agentsGone t id session live nowMs).2 = [] := by
  rw [outputs_agentsGone]
  refine List.filterMap_eq_nil_iff.mpr fun u hu => ?_
  obtain ⟨k, -, hu⟩ := List.mem_filterMap.mp hu
  obtain ⟨r, -, rfl⟩ := Option.map_eq_some_iff.mp hu
  rfl

/-- A message alerts for an agent as its record does. -/
theorem alerts_take {msg : ProbeMsg × ℕ} (hr : m.tracker.get (p.key host) = some r) :
    alertsOf (p.key host) (m.take host msg).2 =
      outputs (AgentRecord.step m.tracker.cfg) r (msg.1.event p).toList := by
  obtain ⟨msg, nowMs⟩ := msg
  cases msg with
  | sessions sessions => exact alertsOf_agentsGone
  | panes session panes => exact alertsOf_agentsGone
  | agentEvent ev =>
    have hev : AgentKey.fromEvent host ev = p.key host ↔ ev.pane = p := PaneRef.key_inj
    have hout : alertsOf (p.key host) (m.take host (.agentEvent ev, nowMs)).2 =
        alertsOf (p.key host) ((m.tracker.apply host ev).2.toList.map .alert) :=
      (alertsOf_append _ _).trans (by rw [alertsOf_agents]; rfl)
    rw [hout, Tracker.alert_apply]
    by_cases hp : ev.pane = p
    · rw [hev.mpr hp, Tracker.entry, hr, Option.getD_some]
      have hkey := m.tracker.keyed _ r hr
      simp only [ProbeMsg.event, hp, if_true, Option.toList_some, outputs_cons, outputs_nil,
        List.append_nil, AgentRecord.step]
      cases ha : (r.apply m.tracker.cfg ev).2 with
      | none => rfl
      | some alert =>
        obtain ⟨-, rfl⟩ := AgentRecord.enters_of_alert ha
        simp [alertsOf, Update.alertOf, hkey]
    · simp only [ProbeMsg.event, hp, if_false, Option.toList_none, outputs_nil]
      cases ha : ((m.tracker.entry (.fromEvent host ev) ev).apply m.tracker.cfg ev).2 with
      | none => rfl
      | some alert =>
        obtain ⟨-, rfl⟩ := AgentRecord.enters_of_alert ha
        have hne : AgentKey.fromEvent host ev ≠ p.key host := fun he => hp (hev.mp he)
        simp [alertsOf, Update.alertOf, Tracker.entry_key, hne]
  | metrics => rfl
  | error => rfl
  | hello => rfl
  | heartbeat => rfl

/-- Messages that show the pane live, seen from its agent. -/
theorem run_spared {msgs : List (ProbeMsg × ℕ)} (hr : m.tracker.get (p.key host) = some r)
    (h : ∀ msg ∈ msgs, msg.1.Spares p) :
    (run (take host) m msgs).tracker.get (p.key host) = some
        (run (AgentRecord.step m.tracker.cfg) r (msgs.filterMap (·.1.event p))) ∧
      alertsOf (p.key host) (outputs (take host) m msgs) =
        outputs (AgentRecord.step m.tracker.cfg) r (msgs.filterMap (·.1.event p)) := by
  induction msgs generalizing m r with
  | nil => exact ⟨hr, rfl⟩
  | cons msg msgs ih =>
    have hkey := m.tracker.keyed _ r hr
    have hget : (m.take host msg).1.tracker.get (p.key host) = some
        (run (AgentRecord.step m.tracker.cfg) r (msg.1.event p).toList) := by
      rw [get_take, hr, onMsg_spared hkey (h msg List.mem_cons_self)]
    have hevents : (msg :: msgs).filterMap (·.1.event p) =
        (msg.1.event p).toList ++ msgs.filterMap (·.1.event p) := by
      cases he : msg.1.event p <;> simp [he]
    obtain ⟨hrun, hout⟩ := ih hget fun msg hm => h msg (List.mem_cons_of_mem _ hm)
    rw [cfg_take] at hrun hout
    rw [hevents, run_append, outputs_append, run_cons, outputs_cons, alertsOf_append, hrun, hout,
      alerts_take hr]
    exact ⟨rfl, rfl⟩

end Monitor

namespace Server

variable {lib : ScrapeLib} {s : Server} {nowMs : ℕ} {a : TickAnswers} {p : PaneRef}

/-- The event that a scrape tells. -/
def scrapedEvent (p : PaneRef) (nowMs : ℕ) (x : String × AgentState) : AgentEvent where
  pane := p
  agent := x.1
  source := .scrape
  state := x.2
  message := none
  tsMs := nowMs
  spoolOffset := none

/-- A poll tells of failures and of the lists it was answered. -/
theorem poll_tells : ∀ msg ∈ (s.pollIfDue nowMs a).2, (∃ code text, msg = .error code text) ∨
    (∃ sessions, a.sessions = .ok sessions ∧ msg = .sessions sessions) ∨
      ∃ name ps, a.panes name = .ok ps ∧ msg = .panes name ps := by
  intro msg hm
  rcases pollIfDue_cases s nowMs a with ⟨-, -, -, hout⟩ | ⟨sessions, hpolls, -, -, hout⟩
  · exact .inl (hout msg hm)
  · rw [hout] at hm
    rcases List.mem_append.mp hm with hm | hm
    · split_ifs at hm
      · cases hm
      · exact .inr (.inl ⟨sessions, answer_of_polls hpolls, List.mem_singleton.mp hm⟩)
    · obtain ⟨acc, session, -, hm⟩ := exists_of_mem_outputs hm
      simp only [pollSession] at hm
      split at hm
      · rename_i ps hps
        split_ifs at hm
        · cases hm
        · exact .inr (.inr ⟨_, ps, hps, List.mem_singleton.mp hm⟩)
      · exact .inl (report_tells _ _ _ _ msg hm)

/-- A tick tells of failures, hook events it read, lists it was answered and scrapes. -/
theorem tick_tells : ∀ msg ∈ (s.tick lib nowMs a).2, (∃ code text, msg = .error code text) ∨
    (∃ ev ∈ readEvents a, msg = .agentEvent ev) ∨
    (∃ sessions, a.sessions = .ok sessions ∧ msg = .sessions sessions) ∨
    (∃ name ps, a.panes name = .ok ps ∧ msg = .panes name ps) ∨
      ∃ pane x, msg = .agentEvent (scrapedEvent pane nowMs x) := by
  intro msg hm
  rw [tick_snd] at hm
  simp only [List.mem_append] at hm
  rcases hm with ((hm | hm) | hm) | hm
  · exact .inl (runCleanup_tells s nowMs a msg hm)
  · obtain ⟨errors, herrors, hout⟩ := drainSpool_tells (s.runCleanup nowMs a).1 a
    rw [hout] at hm
    rcases List.mem_append.mp hm with hm | hm
    · exact .inl (herrors msg hm)
    · obtain ⟨ev, hev, rfl⟩ := List.mem_map.mp hm
      exact .inr (.inl ⟨ev, hev, rfl⟩)
  · rcases poll_tells msg hm with h | h | h
    · exact .inl h
    · exact .inr (.inr (.inl h))
    · exact .inr (.inr (.inr (.inl h)))
  · rcases scrapeIfDue_tells lib _ _ _ msg hm with h | ⟨target, -, agent, state, h⟩
    · exact .inl h
    · exact .inr (.inr (.inr (.inr ⟨target.1, (agent, state), h⟩)))

end Server

end MultiAi
