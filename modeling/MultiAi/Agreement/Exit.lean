import MultiAi.Agreement.Watch

/-! # Agents whose pane is gone

A poll that announces a list ends the agents that are not in it. A hook event of a
pane outside the lists brings its agent back, and a poll that finds the same lists
again announces nothing: such a pane is late.
-/

namespace MultiAi

open Std Spool Server

/-- The lists of the last poll rule a live pane out. -/
def Server.outside (s : Server) (p : PaneRef) : Bool :=
  s.sessions.any (!sessionLive · p.session) || (s.paneList p.session).any (!paneLive · p.paneId)

namespace Late

/-- A hook event other than an exit makes a pane late if it is outside the lists. -/
def event (s : Server) (late : Finset PaneRef) (ev : AgentEvent) : Finset PaneRef :=
  if ev.state = .exited then late.erase ev.pane
  else if s.outside ev.pane then insert ev.pane late
  else late

/-- A poll announces nothing about the session of a late pane. -/
def stays (s : Server) (a : TickAnswers) (sessions : List SessionInfo) (p : PaneRef) : Bool :=
  if sessionLive sessions p.session then
    match a.panes p.session with
    | .ok ps => s.paneList p.session = some ps
    | .error _ => (s.paneList p.session).isSome
  else s.sessions = some sessions

def poll (s : Server) (nowMs : ℕ) (a : TickAnswers) (late : Finset PaneRef) : Finset PaneRef :=
  match s.polls nowMs a with
  | some sessions => late.filter (stays s a sessions ·)
  | none => late

def tick (lib : ScrapeLib) (x : Server × Finset PaneRef) (i : ℕ × TickAnswers) :
    Server × Finset PaneRef :=
  ((x.1.tick lib i.1 i.2).1, poll x.1 i.1 i.2 ((readEvents i.2).foldl (event x.1) x.2))

/-- The late panes after some ticks of a new server. -/
def after (lib : ScrapeLib) (s : Server) (ticks : List (ℕ × TickAnswers)) : Finset PaneRef :=
  (ticks.foldl (tick lib) (s, ∅)).2

/-- The session list and the pane lists of all live sessions are polled. -/
def Complete (s : Server) (nowMs : ℕ) (a : TickAnswers) (sessions : List SessionInfo) : Prop :=
  s.polls nowMs a = some sessions ∧
    ∀ x ∈ liveSessions sessions, ∃ ps, a.panes x.name = .ok ps

/-- A pane that is live in the answers of a poll. -/
def Live (a : TickAnswers) (sessions : List SessionInfo) (session : String) (paneId : ℕ) : Prop :=
  sessionLive sessions session ∧ ∃ ps, a.panes session = .ok ps ∧ paneLive ps paneId

/-- Every agent of the host without a live pane is exited. -/
def NoneOutlives (host : String) (m : Monitor) (a : TickAnswers) (sessions : List SessionInfo) :
    Prop :=
  ∀ r ∈ m.tracker.records, r.key.hostId = host →
    ¬ Live a sessions r.key.session r.key.paneId → r.state = .exited

/-- An agent that is tracked and not exited. -/
def Alive (m : Monitor) (key : AgentKey) : Prop :=
  ∃ r, m.tracker.get key = some r ∧ r.state ≠ .exited

section Alive

variable {m : Monitor} {host : String} {p : PaneRef} {nowMs : ℕ}

theorem alive_congr {m m' : Monitor} {key : AgentKey}
    (h : m.tracker.get key = m'.tracker.get key) : Alive m key ↔ Alive m' key := by
  rw [Alive, h, Alive]

theorem alive_gone {t t' : Tracker} {key : AgentKey} {g : AgentRecord → Bool}
    (h : t'.get key = (t.get key).map fun r => if g r then r.gone nowMs else r) :
    (∃ r, t'.get key = some r ∧ r.state ≠ .exited) ↔
      ∃ r, t.get key = some r ∧ r.state ≠ .exited ∧ g r = false := by
  rw [h]
  cases t.get key with
  | none => simp
  | some r =>
    cases hg : g r
    · simp [hg]
    · simp [hg, AgentRecord.gone]

theorem alive_sessions (sessions : List SessionInfo) :
    Alive (m.take host (.sessions sessions, nowMs)).1 (p.key host) ↔
      Alive m (p.key host) ∧ sessionLive sessions p.session := by
  have hget := @Monitor.get_take m host (p.key host) (.sessions sessions, nowMs)
  rw [Alive, alive_gone hget, Alive]
  constructor
  · rintro ⟨r, hr, hs, hg⟩
    have hk := m.tracker.keyed _ r hr
    refine ⟨⟨r, hr, hs⟩, ?_⟩
    simpa [Monitor.isGone, hk, PaneRef.key, hs] using hg
  · rintro ⟨⟨r, hr, hs⟩, hl⟩
    have hk := m.tracker.keyed _ r hr
    exact ⟨r, hr, hs, by simp [Monitor.isGone, hk, PaneRef.key, hl]⟩

theorem alive_panes (session : String) (panes : List PaneInfo) :
    Alive (m.take host (.panes session panes, nowMs)).1 (p.key host) ↔
      Alive m (p.key host) ∧ (session = p.session → paneLive panes p.paneId) := by
  have hget := @Monitor.get_take m host (p.key host) (.panes session panes, nowMs)
  rw [Alive, alive_gone hget, Alive]
  constructor
  · rintro ⟨r, hr, hs, hg⟩
    have hk := m.tracker.keyed _ r hr
    refine ⟨⟨r, hr, hs⟩, fun he => ?_⟩
    simpa [Monitor.isGone, hk, PaneRef.key, hs, he] using hg
  · rintro ⟨⟨r, hr, hs⟩, hl⟩
    have hk := m.tracker.keyed _ r hr
    refine ⟨r, hr, hs, ?_⟩
    by_cases he : session = p.session
    · simp [Monitor.isGone, hk, PaneRef.key, hl he]
    · simp [Monitor.isGone, hk, PaneRef.key, Ne.symm he]

/-- A hook event behind no offset sets the state of its agent. -/
theorem alive_hook {ev : AgentEvent} (hs : ev.source = .hook) (ho : ev.spoolOffset = some ev.cursor)
    (hoff : ∀ o, m.offset (ev.pane.key host) = some o → o < ev.cursor) :
    (Alive (m.take host (.agentEvent ev, nowMs)).1 (p.key host) ↔
      if ev.pane = p then ev.state ≠ .exited else Alive m (p.key host)) ∧
    (m.take host (.agentEvent ev, nowMs)).1.offset (p.key host) =
      if ev.pane = p then some ev.cursor else m.offset (p.key host) := by
  have hget := @Monitor.get_take m host (p.key host) (.agentEvent ev, nowMs)
  have hkey : AgentKey.fromEvent host ev = p.key host ↔ ev.pane = p := PaneRef.key_inj
  by_cases hp : ev.pane = p
  · have hstale : ((m.tracker.get (p.key host)).getD (.initial (p.key host) ev)).staleHook ev =
        false := by
      rw [AgentRecord.staleHook, ho]
      simp only [Relay.entry_lastHookOffset]
      cases hl : m.offset (p.key host) with
      | none => rw [show (m.tracker.get (p.key host)).bind (·.lastHookOffset) = none from hl]; rfl
      | some o =>
        rw [show (m.tracker.get (p.key host)).bind (·.lastHookOffset) = some o from hl]
        exact decide_eq_false (Nat.not_le_of_lt (hoff o (hp ▸ hl)))
    have hacc := (@AgentRecord.accept_hook _ _ m.tracker.cfg _ hs).mpr ⟨hstale, rfl⟩
    have hget' : (m.take host (.agentEvent ev, nowMs)).1.tracker.get (p.key host) = _ :=
      hget.trans (if_pos (hkey.mpr hp))
    rw [Alive, Monitor.offset, hget', AgentRecord.apply_of_accept hacc, if_pos hp, if_pos hp]
    simp [ho]
  · have hget' : (m.take host (.agentEvent ev, nowMs)).1.tracker.get (p.key host) = _ :=
      hget.trans (if_neg fun hc => hp (hkey.mp hc))
    rw [if_neg hp, if_neg hp, alive_congr hget', Monitor.offset, hget', Monitor.offset]
    exact ⟨Iff.rfl, rfl⟩

end Alive

section Phases

variable {host : String} {s : Server} {m : Monitor} {late : Finset PaneRef}

/-- The late panes are those outside the lists whose agent is not exited. -/
def Tracks (host : String) (s : Server) (m : Monitor) (late : Finset PaneRef) : Prop :=
  ∀ p, p ∈ late ↔ s.outside p ∧ Alive m (p.key host)

/-- No agent of the host has accepted an event past `cursor`. -/
def Behind (host : String) (m : Monitor) (cursor : ℕ) : Prop :=
  ∀ p : PaneRef, ∀ o, m.offset (p.key host) = some o → o ≤ cursor

theorem Tracks.event {ev : AgentEvent} {c : ℕ} (nowMs : ℕ) (h : Tracks host s m late)
    (hb : Behind host m c) (hs : ev.source = .hook) (ho : ev.spoolOffset = some ev.cursor)
    (hc : c < ev.cursor) :
    Tracks host s (m.take host (.agentEvent ev, nowMs)).1 (event s late ev) ∧
      Behind host (m.take host (.agentEvent ev, nowMs)).1 ev.cursor := by
  have halive := fun p => @alive_hook m host p nowMs ev hs ho fun o hl => (hb _ o hl).trans_lt hc
  constructor
  · intro p
    rw [(halive p).1, Late.event]
    by_cases hp : ev.pane = p
    · subst hp
      rw [if_pos rfl]
      split_ifs with hx hout
      · simp [hx]
      · simp [hx, hout]
      · simp [hout, h ev.pane]
    · rw [if_neg hp, ← h p]
      split_ifs
      · simp [Ne.symm hp]
      · simp [Ne.symm hp]
      · rfl
  · intro p o hl
    rw [(halive p).2] at hl
    split_ifs at hl
    · exact (Option.some.inj hl).ge
    · exact (hb p o hl).trans hc.le

theorem Tracks.events {evs : List AgentEvent} {msgs : List (ProbeMsg × ℕ)} {c d : ℕ}
    (hm : msgs.map Prod.fst = evs.map .agentEvent) (h : Tracks host s m late)
    (hb : Behind host m c) (hcd : c ≤ d)
    (hevs : ∀ ev ∈ evs, ev.source = .hook ∧ ev.spoolOffset = some ev.cursor ∧
      c < ev.cursor ∧ ev.cursor ≤ d)
    (hsorted : evs.Pairwise (·.cursor < ·.cursor)) :
    Tracks host s (Machine.run (Monitor.take host) m msgs) (evs.foldl (Late.event s) late) ∧
      Behind host (Machine.run (Monitor.take host) m msgs) d := by
  induction evs generalizing m late msgs c with
  | nil =>
    rw [List.map_eq_nil_iff.mp hm]
    exact ⟨h, fun p o hl => (hb p o hl).trans hcd⟩
  | cons ev evs ih =>
    obtain ⟨msg, msgs, rfl, hmsg, hrest⟩ := List.map_eq_cons_iff.mp hm
    obtain ⟨msg, nowMs⟩ := msg
    obtain rfl : msg = .agentEvent ev := hmsg
    obtain ⟨hs, ho, hc, hd⟩ := hevs ev List.mem_cons_self
    obtain ⟨hlt, hsorted⟩ := List.pairwise_cons.mp hsorted
    obtain ⟨h, hb⟩ := h.event nowMs hb hs ho hc
    rw [Machine.run_cons, List.foldl_cons]
    refine ih hrest h hb hd (fun e he => ?_) hsorted
    obtain ⟨hs, ho, -, hd⟩ := hevs e (List.mem_cons_of_mem _ he)
    exact ⟨hs, ho, hlt e he, hd⟩

/-- The messages of a poll end the agents that its announcements do not list. -/
theorem alive_pollSession {p : PaneRef} (old : PaneLists)
    (panes : String → Except String (List PaneInfo)) (acc : Polling) (live : List SessionInfo)
    {msgs : List (ProbeMsg × ℕ)}
    (hm : msgs.map Prod.fst = Machine.outputs (pollSession old panes) acc live) :
    Alive (Machine.run (Monitor.take host) m msgs) (p.key host) ↔
      Alive m (p.key host) ∧ (live.any (·.name = p.session) → ∀ ps, panes p.session = .ok ps →
        old[p.session]? ≠ some ps → paneLive ps p.paneId) := by
  induction live generalizing acc m msgs with
  | nil =>
    rw [List.map_eq_nil_iff.mp hm]
    simp
  | cons x live ih =>
    rw [Machine.outputs_cons] at hm
    obtain ⟨first, rest, rfl, hfirst, hrest⟩ := List.map_eq_append_iff.mp hm
    rw [Machine.run_append, ih _ hrest]
    have hstep : Alive (Machine.run (Monitor.take host) m first) (p.key host) ↔
        Alive m (p.key host) ∧ (x.name = p.session → ∀ ps, panes p.session = .ok ps →
          old[p.session]? ≠ some ps → paneLive ps p.paneId) := by
      simp only [pollSession] at hfirst
      cases hp : panes x.name with
      | error e =>
        simp only [hp] at hfirst
        have hsame : (Machine.run (Monitor.take host) m first).tracker.get (p.key host) =
            m.tracker.get (p.key host) := by
          refine Monitor.get_run_take_errors fun msg hmsg => ?_
          have hmem : msg.1 ∈ first.map Prod.fst := List.mem_map_of_mem hmsg
          rw [hfirst] at hmem
          exact report_tells _ _ _ _ _ hmem
        rw [alive_congr hsame]
        refine (and_iff_left ?_).symm
        rintro hx ps hps
        rw [← hx, hp] at hps
        cases hps
      | ok ps =>
        simp only [hp] at hfirst
        split_ifs at hfirst with hold
        · rw [List.map_eq_nil_iff.mp hfirst]
          refine (and_iff_left ?_).symm
          rintro hx ps' hps hne
          rw [← hx, hp] at hps
          cases hps
          exact absurd (hx ▸ hold) hne
        · obtain ⟨⟨msg, nowMs⟩, rest, rfl, hmsg, hnil⟩ := List.map_eq_cons_iff.mp hfirst
          obtain rfl := List.map_eq_nil_iff.mp hnil
          obtain rfl : msg = .panes x.name ps := hmsg
          refine (alive_panes x.name ps).trans (and_congr_right' ?_)
          constructor
          · rintro hl hx ps' hps -
            rw [← hx, hp] at hps
            cases hps
            exact hl hx
          · rintro hl hx
            refine hl hx ps (hx ▸ hp) (hx ▸ hold)
    rw [hstep, List.any_cons, Bool.or_eq_true, decide_eq_true_eq]
    tauto

theorem alive_news {p : PaneRef} (sessions : List SessionInfo) {msgs : List (ProbeMsg × ℕ)}
    (hm : msgs.map Prod.fst = if s.sessions = some sessions then [] else [.sessions sessions]) :
    Alive (Machine.run (Monitor.take host) m msgs) (p.key host) ↔
      Alive m (p.key host) ∧ (s.sessions ≠ some sessions → sessionLive sessions p.session) := by
  split_ifs at hm with hold
  · rw [List.map_eq_nil_iff.mp hm]
    exact (and_iff_left fun hne => absurd hold hne).symm
  · obtain ⟨⟨msg, nowMs⟩, rest, rfl, hmsg, hnil⟩ := List.map_eq_cons_iff.mp hm
    obtain rfl := List.map_eq_nil_iff.mp hnil
    obtain rfl : msg = .sessions sessions := hmsg
    exact (alive_sessions sessions).trans (and_congr_right' (by simp [hold]))

/-- Panes are listed for live sessions only. -/
def Listed (s : Server) : Prop :=
  ∀ name ps, s.paneList name = some ps → ∃ sessions, s.sessions = some sessions ∧
    sessionLive sessions name

theorem outside_listed (h : Listed s) {p : PaneRef} {ps : List PaneInfo}
    (hps : s.paneList p.session = some ps) : s.outside p = !paneLive ps p.paneId := by
  obtain ⟨sessions, hs, hl⟩ := h _ _ hps
  simp [Server.outside, hs, hl, hps]

theorem Tracks.poll {nowMs : ℕ} {a : TickAnswers} {msgs : List (ProbeMsg × ℕ)}
    (hm : msgs.map Prod.fst = (s.pollIfDue nowMs a).2) (h : Tracks host s m late)
    (hlisted : Listed s) :
    Tracks host (s.pollIfDue nowMs a).1 (Machine.run (Monitor.take host) m msgs)
      (Late.poll s nowMs a late) := by
  intro p
  rw [Late.poll]
  rcases pollIfDue_cases s nowMs a with ⟨hpoll, hs, hp, herr⟩ | ⟨sessions, hpoll, hs, hp, hout⟩
  · have hsame : (Machine.run (Monitor.take host) m msgs).tracker.get (p.key host) =
        m.tracker.get (p.key host) :=
      Monitor.get_run_take_errors fun msg hmsg => herr _ (hm ▸ List.mem_map_of_mem hmsg)
    rw [hpoll, alive_congr hsame, Server.outside, hs, paneList, hp]
    exact h p
  · obtain ⟨news, rest, rfl, hnews, hrest⟩ := List.map_eq_append_iff.mp (hm.trans hout)
    have halive := (alive_pollSession _ _ _ _ hrest).trans
      (and_congr_left' (@alive_news host s m p sessions _ hnews))
    rw [Machine.run_append, halive, any_liveSessions, hpoll, Finset.mem_filter, h p]
    have hout : (s.pollIfDue nowMs a).1.outside p = (!sessionLive sessions p.session ||
        (s.pollList a sessions p.session).any (!paneLive · p.paneId)) := by
      rw [Server.outside, hs, hp, Option.any_some]
    rw [hout, stays, pollList]
    by_cases hl : sessionLive sessions p.session
    · rw [if_pos hl]
      cases hps : a.panes p.session with
      | ok ps =>
        by_cases hsame : s.paneList p.session = some ps
        · have hin := outside_listed hlisted hsame
          simp only [paneList] at hsame
          simp [hl, hin, hsame, paneList, and_comm]
        · simp only [paneList] at hsame
          simp [hl, hsame, paneList]
          tauto
      | error e =>
        cases hold : s.paneList p.session with
        | none => simp [hl]
        | some ps => simp [hl, outside_listed hlisted hold, and_comm]
    · rw [if_neg hl]
      by_cases hsame : s.sessions = some sessions
      · have hin : s.outside p := by simp [Server.outside, hsame, hl]
        simp [hl, hin, hsame]
      · simp [hl, hsame]

theorem scrape_frame {lib : ScrapeLib} {nowMs : ℕ} {a : TickAnswers} {msgs : List (ProbeMsg × ℕ)}
    (hm : msgs.map Prod.fst = (s.scrapeIfDue lib nowMs a).2) {p : PaneRef}
    (hp : ∀ target ∈ s.targets, target.1 ≠ p) :
    (Machine.run (Monitor.take host) m msgs).tracker.get (p.key host) =
      m.tracker.get (p.key host) := by
  refine Monitor.get_run_take fun msg hmsg cfg now r => ?_
  have hmem : msg.1 ∈ (s.scrapeIfDue lib nowMs a).2 := hm ▸ List.mem_map_of_mem hmsg
  rcases scrapeIfDue_tells lib s nowMs a _ hmem with ⟨_, _, he⟩ | ⟨target, ht, _, _, he⟩
  · rw [he]
    rfl
  · rw [he]
    exact onMsg_scrapeEvent_ne nowMs (hp target ht)

/-- A scrape only visits panes that the lists show. -/
theorem Tracks.scrape {lib : ScrapeLib} {nowMs : ℕ} {a : TickAnswers}
    {msgs : List (ProbeMsg × ℕ)} (hm : msgs.map Prod.fst = (s.scrapeIfDue lib nowMs a).2)
    (h : Tracks host s m late) (hlisted : Listed s) :
    Tracks host (s.scrapeIfDue lib nowMs a).1 (Machine.run (Monitor.take host) m msgs) late := by
  intro p
  have hout : (s.scrapeIfDue lib nowMs a).1.outside p = s.outside p := by
    rw [Server.outside, paneList, sessions_scrapeIfDue, panes_scrapeIfDue]
    rfl
  rw [hout, h p]
  refine and_congr_right fun hp => (alive_congr (scrape_frame hm fun target ht heq => ?_)).symm
  obtain ⟨ps, hps, hmem, hid, hexited⟩ := mem_targets s ht
  subst heq
  rw [outside_listed hlisted hps] at hp
  have hlive : paneLive ps target.1.paneId := by
    rw [paneLive, List.any_eq_true]
    exact ⟨target.2, hmem, by simp [hid, hexited]⟩
  rw [hlive] at hp
  cases hp

structure Inv (host : String) (s : Server) (m : Monitor) (late : Finset PaneRef) : Prop where
  tracks : Tracks host s m late
  behind : Behind host m s.readCursor
  listed : Listed s

theorem inv_new (zellij : Bool) (ack : ℕ) (rules : CompiledRules) (cfg : TrackerConfig) :
    Inv host (.new zellij ack rules) (.new cfg) ∅ where
  tracks p := by simp [Server.outside, Server.new, paneList]
  behind p o h := by simp [Monitor.offset, Monitor.new] at h
  listed name ps h := by simp [paneList, Server.new] at h

theorem poll_congr {s' : Server} (h : s.known = s'.known) (nowMs : ℕ) (a : TickAnswers) :
    Late.poll s nowMs a late = Late.poll s' nowMs a late := by
  cases s
  cases s'
  simp only [known, Known.mk.injEq] at h
  obtain ⟨rfl, rfl, rfl, rfl, rfl, rfl, rfl⟩ := h
  rfl

theorem outside_congr {s' : Server} (h : s.known = s'.known) : s.outside = s'.outside := by
  have hs : s.sessions = s'.sessions := congrArg Known.sessions h
  have hp : s.panes = s'.panes := congrArg Known.panes h
  funext p
  rw [Server.outside, paneList, hs, hp]
  rfl

theorem listed_congr {s' : Server} (h : s.known = s'.known) (hl : Listed s) : Listed s' := by
  have hs : s.sessions = s'.sessions := congrArg Known.sessions h
  have hp : s.panes = s'.panes := congrArg Known.panes h
  rw [Listed, ← hs]
  intro name ps hps
  rw [paneList, ← hp] at hps
  exact hl name ps hps

theorem Listed.poll {nowMs : ℕ} {a : TickAnswers} (h : Listed s) :
    Listed (s.pollIfDue nowMs a).1 := by
  intro name ps hps
  rcases pollIfDue_cases s nowMs a with ⟨-, hs, hp, -⟩ | ⟨sessions, -, hs, hp, -⟩
  · rw [paneList, hp] at hps
    rw [hs]
    exact h name ps hps
  · rw [hp, pollList] at hps
    refine ⟨sessions, hs, ?_⟩
    split_ifs at hps with hl
    exact hl

/-- The events of a read lie behind the cursor and up to its end. -/
theorem readEvents_forward {a : TickAnswers}
    (hread : ∀ r, a.read = .ok r → r.Forward s.readCursor) :
    s.readCursor ≤ (s.drainSpool a).1.readCursor ∧
      (readEvents a).Pairwise (·.cursor < ·.cursor) ∧
      ∀ ev ∈ readEvents a, ev.source = .hook ∧ ev.spoolOffset = some ev.cursor ∧
        s.readCursor < ev.cursor ∧ ev.cursor ≤ (s.drainSpool a).1.readCursor := by
  rw [readCursor_drainSpool, readEvents]
  cases h : a.read with
  | error e => exact ⟨Nat.le_refl _, .nil, fun ev hev => (List.not_mem_nil hev).elim⟩
  | ok r =>
    have hr := hread r h
    refine ⟨hr.le, recordEvents_sorted hr.sorted, fun ev hev => ?_⟩
    obtain ⟨hs, ho, record, hrecord, -⟩ := mem_recordEvents hev
    exact ⟨hs, ho, hr.mem _ hrecord⟩

theorem Inv.tick {lib : ScrapeLib} {nowMs : ℕ} {a : TickAnswers} {msgs : List (ProbeMsg × ℕ)}
    (h : Inv host s m late) (hread : ∀ r, a.read = .ok r → r.Forward s.readCursor)
    (hm : msgs.map Prod.fst = (s.tick lib nowMs a).2) :
    Inv host (s.tick lib nowMs a).1 (Machine.run (Monitor.take host) m msgs)
      (Late.tick lib (s, late) (nowMs, a)).2 := by
  obtain ⟨errors, herrors, hdrain⟩ := drainSpool_tells (s.runCleanup nowMs a).1 a
  rw [tick_snd, hdrain, ← List.append_assoc] at hm
  obtain ⟨msgs, scraped, rfl, hm, hscraped⟩ := List.map_eq_append_iff.mp hm
  obtain ⟨msgs, lists, rfl, hm, hpolled⟩ := List.map_eq_append_iff.mp hm
  obtain ⟨failed, read, rfl, hfailed, hdrained⟩ := List.map_eq_append_iff.mp hm
  rw [Machine.run_append, Machine.run_append, Machine.run_append]
  -- Failures move no record.
  have hsame : ∀ key, (Machine.run (Monitor.take host) m failed).tracker.get key =
      m.tracker.get key := by
    refine fun key => Monitor.get_run_take_errors fun msg hmsg => ?_
    have hmem : msg.1 ∈ (s.runCleanup nowMs a).2 ++ errors := hfailed ▸ List.mem_map_of_mem hmsg
    rcases List.mem_append.mp hmem with hmem | hmem
    · exact runCleanup_tells s nowMs a _ hmem
    · exact herrors _ hmem
  have htracks : Tracks host s (Machine.run (Monitor.take host) m failed) late := fun p => by
    rw [alive_congr (hsame _)]
    exact h.tracks p
  have hbehind : Behind host (Machine.run (Monitor.take host) m failed) s.readCursor := by
    intro p o ho
    rw [Monitor.offset, hsame] at ho
    exact h.behind p o ho
  have hcleaned : (s.runCleanup nowMs a).1.readCursor = s.readCursor := readCursor_runCleanup ..
  obtain ⟨hle, hsorted, hevs⟩ := @readEvents_forward (s.runCleanup nowMs a).1 a (hcleaned ▸ hread)
  rw [hcleaned] at hle hevs
  obtain ⟨htracks, hbehind⟩ := htracks.events hdrained hbehind hle hevs hsorted
  generalize Machine.run (Monitor.take host) (Machine.run (Monitor.take host) m failed) read = m'
    at htracks hbehind
  -- The poll and the scrape start from the lists known before.
  have hknown : s.known = (s.drained nowMs a).known := (known_drained s nowMs a).symm
  have hlisted := listed_congr hknown h.listed
  have htracks : Tracks host (s.drained nowMs a) m' ((readEvents a).foldl (event s) late) := by
    intro p
    rw [← outside_congr hknown]
    exact htracks p
  have hpoll := htracks.poll hpolled hlisted
  refine ⟨?_, ?_, ?_⟩
  · have hscrape := hpoll.scrape hscraped hlisted.poll
    rwa [← poll_congr hknown] at hscrape
  · intro p o ho
    have hquiet : ∀ msg ∈ scraped, msg.1.hook = none := fun msg hmsg =>
      (scrapeIfDue_silent lib (s.polled nowMs a) nowMs a _
        (hscraped ▸ List.mem_map_of_mem hmsg)).1
    have hquiet' : ∀ msg ∈ lists, msg.1.hook = none := fun msg hmsg =>
      (pollIfDue_silent (s.drained nowMs a) nowMs a _ (hpolled ▸ List.mem_map_of_mem hmsg)).1
    rw [Monitor.offset_run_take hquiet, Monitor.offset_run_take hquiet'] at ho
    rw [tick_fst, readCursor_scrapeIfDue, Server.polled, readCursor_pollIfDue]
    exact hbehind p o ho
  · intro name ps hps
    rw [tick_fst, sessions_scrapeIfDue]
    rw [tick_fst, paneList, panes_scrapeIfDue] at hps
    exact hlisted.poll name ps hps

theorem outside_complete {lib : ScrapeLib} {nowMs : ℕ} {a : TickAnswers}
    {sessions : List SessionInfo} (hc : Complete s nowMs a sessions) (p : PaneRef) :
    (s.tick lib nowMs a).1.outside p ↔ ¬ Live a sessions p.session p.paneId := by
  have hpolls : (s.drained nowMs a).polls nowMs a = some sessions := by
    have hknown := known_drained s nowMs a
    rw [← hc.1, polls, polls]
    have hz : (s.drained nowMs a).zellij = s.zellij := congrArg Known.zellij hknown
    have hl : (s.drained nowMs a).lastPanePoll = s.lastPanePoll := congrArg Known.lastPanePoll hknown
    have hi : (s.drained nowMs a).intervals = s.intervals := congrArg Known.intervals hknown
    rw [hz, hl, hi]
  rcases pollIfDue_cases (s.drained nowMs a) nowMs a with ⟨hnone, -⟩ | ⟨sessions', hsome, hs, hp, -⟩
  · rw [hpolls] at hnone
    cases hnone
  · cases hpolls.symm.trans hsome
    have hs' : (s.tick lib nowMs a).1.sessions = some sessions := by
      rw [tick_fst, sessions_scrapeIfDue]
      exact hs
    have hp' : (s.tick lib nowMs a).1.paneList p.session =
        (s.drained nowMs a).pollList a sessions p.session := by
      rw [tick_fst, paneList, panes_scrapeIfDue]
      exact hp p.session
    rw [Server.outside, hs', hp', pollList, Live, Option.any_some]
    by_cases hl : sessionLive sessions p.session
    · obtain ⟨x, hx, hname⟩ := List.any_eq_true.mp ((any_liveSessions sessions p.session).trans hl)
      obtain ⟨ps, hps⟩ := hc.2 x hx
      rw [of_decide_eq_true hname] at hps
      simp [hl, hps]
    · simp [hl]

end Phases

section Run

variable {lib : ScrapeLib} {host : String} {zellij : Bool} {ack : ℕ} {rules : CompiledRules}
  {cfg : TrackerConfig} {ticks : List (ℕ × TickAnswers)} {s : Server} {m : Monitor}

theorem inv_run (h : Run lib host (.new zellij ack rules) cfg ticks s m) :
    (ticks.foldl (tick lib) (.new zellij ack rules, ∅)).1 = s ∧
      Inv host s m (after lib (.new zellij ack rules) ticks) := by
  induction h with
  | start => exact ⟨rfl, inv_new zellij ack rules cfg⟩
  | @tick ticks s m nowMs a msgs _ hread hm ih =>
    rw [after, List.foldl_concat]
    obtain ⟨hs, hinv⟩ := ih
    rw [after] at hinv
    generalize ticks.foldl (tick lib) (.new zellij ack rules, ∅) = x at hs hinv
    obtain ⟨s', late⟩ := x
    obtain rfl : s' = s := hs
    exact ⟨rfl, hinv.tick hread hm⟩

/-- A complete tick leaves no agent without its pane exactly when no pane is late. -/
theorem noneOutlives_iff {nowMs : ℕ} {a : TickAnswers} {sessions : List SessionInfo}
    {msgs : List (ProbeMsg × ℕ)} (h : Run lib host (.new zellij ack rules) cfg ticks s m)
    (hread : ∀ r, a.read = .ok r → r.Forward s.readCursor)
    (hm : msgs.map Prod.fst = (s.tick lib nowMs a).2) (hc : Complete s nowMs a sessions) :
    NoneOutlives host (Machine.run (Monitor.take host) m msgs) a sessions ↔
      after lib (.new zellij ack rules) (ticks ++ [(nowMs, a)]) = ∅ := by
  have htracks := (inv_run (h.tick hread hm)).2.tracks
  generalize Machine.run (Monitor.take host) m msgs = m' at htracks
  rw [Finset.eq_empty_iff_forall_notMem]
  constructor
  · intro hnone p hp
    obtain ⟨hout, r, hr, hstate⟩ := (htracks p).mp hp
    have hk := m'.tracker.keyed _ r hr
    refine hstate (hnone r (Tracker.mem_records.mpr (hk ▸ hr)) (by rw [hk]; rfl) ?_)
    rw [hk]
    exact (outside_complete hc p).mp hout
  · intro hempty r hr hhost hlive
    by_contra hstate
    have hkey : PaneRef.key host ⟨r.key.session, r.key.paneId⟩ = r.key := by rw [← hhost]; rfl
    refine hempty ⟨r.key.session, r.key.paneId⟩ ((htracks _).mpr ⟨?_, r, ?_, hstate⟩)
    · exact (outside_complete hc _).mpr hlive
    · rw [hkey]
      exact Tracker.mem_records.mp hr

/-- A tick that polls one session, `work`, with these panes. -/
def workTick (records : List (ℕ × SpoolRecord)) (panes : List PaneInfo) : TickAnswers where
  cleanup := .ok 0
  read := .ok ⟨records, 0, lastCursor 0 records⟩
  sessions := .ok [⟨"work", false⟩]
  panes _ := .ok panes
  dump _ := .ok ""

def workLib : ScrapeLib := ⟨fun _ => .error "", String.length⟩

def workServer : Server := .new true 0 ⟨[]⟩

/-- The server after it polled the empty session. -/
def workServer' : Server := (workServer.tick workLib 0 (workTick [] [])).1

def workMonitor : Monitor :=
  Machine.run (Monitor.take "host") (.new .default)
    (stamp 1 (workServer.tick workLib 0 (workTick [] [])).2)

theorem run_work : Run workLib "host" workServer .default [(0, workTick [] [])] workServer'
    workMonitor := by
  refine .tick .start ?_ (map_fst_stamp 1 _)
  rintro _ ⟨⟩
  exact ⟨Nat.le_refl _, .nil, by simp⟩

/-- A `Stop` hook of pane 1. -/
def stopRecord : SpoolRecord := ⟨5, "claude", "work", 1, .obj [("hook_event_name", .str "Stop")]⟩

theorem forward_stop (panes : List PaneInfo) : ∀ r, (workTick [(1, stopRecord)] panes).read = .ok r →
    r.Forward workServer'.readCursor := by
  rintro _ ⟨⟩
  exact ⟨by decide, by decide, by decide⟩

theorem complete_work (records : List (ℕ × SpoolRecord)) (panes : List PaneInfo) :
    Complete workServer' 3000 (workTick records panes) [⟨"work", false⟩] :=
  ⟨by rfl, fun _ _ => ⟨_, rfl⟩⟩

/-- The poll after the hook lists its pane. -/
theorem noneOutlives_iff_listed : ∃ m a, NoneOutlives "host" m a [⟨"work", false⟩] ∧
    (m.tracker.get ⟨"host", "work", 1⟩).map (·.state) = some .done := by
  let a := workTick [(1, stopRecord)] [⟨1, 0, "tab", "pane", none, false⟩]
  have hiff := noneOutlives_iff run_work (forward_stop _)
    (map_fst_stamp 3001 (workServer'.tick workLib 3000 a).2) (complete_work _ _)
  exact ⟨_, a, hiff.mpr (by decide +kernel), by decide +kernel⟩

/-- The pane of the hook is in no list, and the poll after it finds the lists unchanged. -/
theorem not_noneOutlives : ¬ ∀ (lib : ScrapeLib) (host : String) (zellij : Bool) (ack : ℕ)
    (rules : CompiledRules) (cfg : TrackerConfig) (ticks : List (ℕ × TickAnswers)) (s : Server)
    (m : Monitor) (nowMs : ℕ) (a : TickAnswers) (sessions : List SessionInfo)
    (msgs : List (ProbeMsg × ℕ)), Run lib host (.new zellij ack rules) cfg ticks s m →
    (∀ r, a.read = .ok r → r.Forward s.readCursor) → msgs.map Prod.fst = (s.tick lib nowMs a).2 →
    Complete s nowMs a sessions →
    NoneOutlives host (Machine.run (Monitor.take host) m msgs) a sessions := by
  intro hall
  have hnone := hall workLib "host" true 0 ⟨[]⟩ .default _ workServer' workMonitor 3000
    (workTick [(1, stopRecord)] []) _ _ run_work (forward_stop _) (map_fst_stamp 3001 _)
    (complete_work _ _)
  have hdone : ((Machine.run (Monitor.take "host") workMonitor (stamp 3001
      (workServer'.tick workLib 3000 (workTick [(1, stopRecord)] [])).2)).tracker.get
        ⟨"host", "work", 1⟩).map (·.state) = some .done := by decide +kernel
  obtain ⟨r, hr, hstate⟩ := Option.map_eq_some_iff.mp hdone
  have hkey := Tracker.keyed _ _ r hr
  have hexited := hnone r (Tracker.mem_records.mpr (hkey ▸ hr)) (by rw [hkey]) ?_
  · rw [hstate] at hexited
    cases hexited
  · rintro ⟨-, ps, hps, hlive⟩
    cases hps
    cases hlive

end Run

end Late

end MultiAi
