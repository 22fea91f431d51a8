import MultiAi.Restart.First

/-! # A restart on a host that does not change

The records that are read again are no news for the tracker. What the new server finds in
a pane decides whether its restart is silent.
-/

namespace MultiAi

open Std Machine Spool Server Silence

namespace Server

variable {lib : ScrapeLib} {s : Server} {nowMs : ℕ} {a : TickAnswers} {p : PaneRef}

/-- The lists that a tick tells show a pane that the answers show. -/
theorem spares_tick {info : PaneInfo} {screen : String} (h : a.Shows p info screen) :
    ∀ msg ∈ (s.tick lib nowMs a).2, msg.Spares p := by
  intro msg hm
  obtain ⟨sessions, hs, hlive⟩ := h.live
  obtain ⟨ps, hps, hinfo⟩ := h.listed
  rcases tick_tells msg hm with ⟨code, text, rfl⟩ | ⟨ev, -, rfl⟩ | ⟨sessions', hs', rfl⟩ |
    ⟨name, ps', hps', rfl⟩ | ⟨pane, x, rfl⟩
  · trivial
  · trivial
  · obtain rfl := Except.ok.inj (hs.symm.trans hs')
    exact hlive
  · rintro rfl
    obtain rfl := Except.ok.inj (hps.symm.trans hps')
    have hmem : info ∈ ps.filter (·.id = p.paneId) := hinfo ▸ List.mem_singleton_self info
    obtain ⟨hmem, hid⟩ := List.mem_filter.mp hmem
    exact List.any_eq_true.mpr ⟨info, hmem, by simp_all [h.running]⟩
  · trivial

/-- The scrapes of a pane among the events of a tick. -/
theorem scrapes_tick : ((s.tick lib nowMs a).2.filterMap (·.event p)).filter (·.source = .scrape) =
    ((s.tick lib nowMs a).2.filterMap (·.scraped p)).map (scrapedEvent p nowMs) := by
  rw [List.filter_filterMap, List.map_filterMap]
  refine List.filterMap_congr fun msg hm => ?_
  rcases tick_tells msg hm with ⟨code, text, rfl⟩ | ⟨ev, hev, rfl⟩ | ⟨sessions', hs', rfl⟩ |
    ⟨name, ps', hps', rfl⟩ | ⟨pane, x, rfl⟩
  · rfl
  · have hs := source_readEvents hev
    by_cases hp : ev.pane = p <;> simp [ProbeMsg.event, ProbeMsg.scraped, hp, hs]
  · rfl
  · rfl
  · by_cases hp : pane = p
    · subst hp
      simp [ProbeMsg.event, ProbeMsg.scraped, scrapedEvent]
    · simp [ProbeMsg.event, ProbeMsg.scraped, scrapedEvent, hp]

/-- The hook events of a pane that a tick tells are those it read. -/
theorem hook_tick {ev : AgentEvent} (hev : ev ∈ (s.tick lib nowMs a).2.filterMap (·.event p))
    (hs : ev.source = .hook) : ev ∈ readEvents a ∧ ev.pane = p := by
  obtain ⟨msg, hm, he⟩ := List.mem_filterMap.mp hev
  rcases tick_tells msg hm with ⟨code, text, rfl⟩ | ⟨ev', hev', rfl⟩ | ⟨sessions', hs', rfl⟩ |
    ⟨name, ps', hps', rfl⟩ | ⟨pane, x, rfl⟩
  · cases he
  · simp only [ProbeMsg.event] at he
    split_ifs at he with hp
    obtain rfl := Option.some.inj he
    exact ⟨hev', hp⟩
  · cases he
  · cases he
  · simp only [ProbeMsg.event] at he
    split_ifs at he
    obtain rfl := Option.some.inj he
    cases hs

end Server

/-- What a new server finds in a pane. -/
inductive Found where
  /-- No agent, or one that a hook told to be gone. -/
  | nobody
  /-- The agent of the last hook record. -/
  | bound (agent : String)
  /-- An agent that is told as unknown first. -/
  | announced (agent : String)

namespace Found

variable (lib : ScrapeLib) (rules : CompiledRules) (info : PaneInfo) (screen : String)

/-- What a pane in which this was found is known to be from then on. -/
def Stays : Found → PaneMemory → Prop
  | .nobody, m => m.Free rules info screen
  | .bound agent, m | .announced agent, m => m.Watches lib rules info screen agent

/-- The state that is told of such a pane, once its agent was announced. -/
def Settles : Found → AgentState → Prop
  | .nobody, _ => False
  | .bound agent, state | .announced agent, state => rules.settles agent screen = some state

/-- What the first dump makes of the pane, and what it tells. -/
inductive FirstCase (t : ℕ) : Found → PaneMemory × List Scraped → Prop
  | nobody {m : PaneMemory} : m.Free rules info screen → FirstCase t .nobody (m, [])
  | bound {agent : String} {m : PaneMemory} : m.Fresh lib rules info screen agent t →
      FirstCase t (.bound agent) (m, [])
  | announced {agent : String} {m : PaneMemory} : m.Fresh lib rules info screen agent t →
      FirstCase t (.announced agent) (m, [(agent, .unknown)])

variable {lib rules info screen} {nowMs : ℕ} {m : PaneMemory} {f : Found}

theorem Stays.dump (h : f.Stays lib rules info screen m) :
    f.Stays lib rules info screen (m.step lib (.dump rules info screen nowMs)).1 ∧
      ∀ y ∈ (m.step lib (.dump rules info screen nowMs)).2, f.Settles rules screen y.2 := by
  cases f with
  | nobody =>
    obtain ⟨hfree, hout⟩ := @PaneMemory.Free.dump lib rules info screen nowMs m h
    refine ⟨hfree, fun y hy => ?_⟩
    rw [hout] at hy
    cases hy
  | bound agent => exact PaneMemory.Watches.dump h
  | announced agent => exact PaneMemory.Watches.dump h

theorem FirstCase.stays {t : ℕ} {out : List Scraped} (h : FirstCase lib rules info screen t f (m, out)) :
    f.Stays lib rules info screen m := by
  cases h with
  | nobody hfree => exact hfree
  | bound hfresh => exact hfresh.watches
  | announced hfresh => exact hfresh.watches

end Found

namespace Restart

variable (lib : ScrapeLib) (x : Restart) (p : PaneRef) (info : PaneInfo) (screen : String)

def finds : Found :=
  match lastRecord p x.replay.records with
  | some entry => if exits entry then .nobody else .bound entry.2.agent
  | none =>
    match x.rules.identify info.title info.command screen with
    | none => .nobody
    | some agent => .announced agent

/-- What the server tells of the pane is no news for this record. -/
def Quiet (r : AgentRecord) : Prop :=
  match x.finds p info screen with
  | .nobody => True
  | .bound agent => ∀ state, x.rules.settles agent screen = some state → state = r.state
  | .announced agent => x.rules.settles agent screen = none ∧ r.acknowledged = false

/-- The screen was scraped when the stable time of an agent had passed since the first tick,
at `t`. -/
def Passed (agent : String) (t : ℕ) (ts : List ℕ) : Prop :=
  Sometime (again lib x.answers) (fun s t' => s.scrapes t' ∧
    ∀ rule, x.rules.rule agent = some rule → rule.stableMs ≤ t' - t) (x.first lib t).1 ts

/-- However many ticks the new server runs, no alert is raised for the agent of the pane, and
it stays acknowledged in its state. -/
def Silent (host : String) (m : Monitor) (r : AgentRecord) : Prop :=
  ∀ (t : ℕ) (ts : List ℕ) (msgs : List (ProbeMsg × ℕ)), msgs.map Prod.fst = x.tells lib t ts →
    alertsOf (p.key host) (outputs (Monitor.take host) m msgs) = [] ∧
      (r.acknowledged → x.Passed lib r.agent t ts →
        ∃ r', (run (Monitor.take host) m msgs).tracker.get (p.key host) = some r' ∧
          r'.state = r.state ∧ r'.acknowledged)

variable {lib x p info screen} {t : ℕ} {ts : List ℕ}

theorem shows_reading (h : x.answers.Shows p info screen) : x.reading.Shows p info screen :=
  ⟨h.live, h.listed, h.running, h.dump⟩

theorem spares_tells (h : x.answers.Shows p info screen) : ∀ msg ∈ x.tells lib t ts, msg.Spares p := by
  intro msg hm
  rcases List.mem_append.mp hm with hm | hm
  · exact spares_tick (shows_reading h) msg hm
  · exact outputs_forall (fun s nowMs => spares_tick h) _ _ msg hm

/-- The hook events of a pane that are told are those read again. -/
theorem hook_tells (ha : x.answers.Idle) {ev : AgentEvent}
    (hev : ev ∈ (x.tells lib t ts).filterMap (·.event p)) (hs : ev.source = .hook) :
    ev ∈ recordEvents x.replay.records ∧ ev.pane = p := by
  rw [tells, List.filterMap_append] at hev
  rcases List.mem_append.mp hev with hev | hev
  · exact hook_tick hev hs
  · obtain ⟨msg, hm, he⟩ := List.mem_filterMap.mp hev
    obtain ⟨s, nowMs, -, hm⟩ := exists_of_mem_outputs hm
    obtain ⟨hread, -⟩ := hook_tick (List.mem_filterMap.mpr ⟨msg, hm, he⟩) hs
    rw [readEvents_idle ha] at hread
    cases hread

/-- What was found in the pane is what its records and the first dump say. -/
theorem firstCase (h : x.answers.Shows p info screen) :
    Found.FirstCase lib x.rules info screen t (x.finds p info screen)
      ((x.first lib t).1.memory p, (x.first lib t).2.filterMap (·.scraped p)) := by
  rw [pane_first h, finds, PaneMemory.replayed]
  cases lastRecord p x.replay.records with
  | some entry =>
    by_cases he : exits entry
    · simp only [he, if_true]
      obtain ⟨hfree, hout⟩ := @PaneMemory.Free.dump lib x.rules info screen t
        ⟨none, true, none, true⟩ ⟨rfl, .inr rfl⟩
      rw [← Prod.mk.eta (p := PaneMemory.step ..), hout]
      exact .nobody hfree
    · simp only [he, Bool.false_eq_true, if_false]
      obtain ⟨hfresh, hout⟩ := @PaneMemory.Bound.first lib x.rules info screen entry.2.agent t
        ⟨some ⟨entry.2.agent, true, 0⟩, false, none, true⟩ ⟨_, rfl, rfl, rfl⟩ rfl
      rw [← Prod.mk.eta (p := PaneMemory.step ..), hout]
      exact .bound hfresh
  | none =>
    simp only
    cases hf : x.rules.identify info.title info.command screen with
    | none =>
      obtain ⟨hfree, hout⟩ := @PaneMemory.Free.dump lib x.rules info screen t
        ⟨none, false, none, true⟩ ⟨rfl, .inl hf⟩
      rw [← Prod.mk.eta (p := PaneMemory.step ..), hout]
      exact .nobody hfree
    | some agent =>
      obtain ⟨hfresh, hout⟩ := @PaneMemory.first_appeared lib x.rules info screen agent t
        ⟨none, false, none, true⟩ rfl rfl rfl hf
      rw [← Prod.mk.eta (p := PaneMemory.step ..), hout]
      exact .announced hfresh

/-- After the first tick the pane is only told to be in the state its screen settles in. -/
theorem settles_later (ha : x.answers.Idle) (h : x.answers.Shows p info screen) {y : Scraped}
    (hy : y ∈ (outputs (again lib x.answers) (x.first lib t).1 ts).filterMap (·.scraped p)) :
    (x.finds p info screen).Settles x.rules screen y.2 := by
  obtain ⟨honce, hshown⟩ := @shown_first lib x p info screen t h
  obtain ⟨msg, hm, hy⟩ := List.mem_filterMap.mp hy
  refine outputs_invariant (P := fun s => Calm x.answers (x.first lib t).1.panes x.rules s ∧
      (x.finds p info screen).Stays lib x.rules info screen (s.memory p))
    (R := fun msg => ∀ y, msg.scraped p = some y →
      (x.finds p info screen).Settles x.rules screen y.2) ?_
    ⟨calm_first h, (firstCase h).stays⟩ ts msg hm y hy
  rintro s nowMs ⟨hcalm, hstays⟩
  obtain ⟨listed, hmem⟩ := @pane_again lib x.answers s nowMs p _ x.rules info screen ha hcalm honce
    hshown h.dump
  have hstays' : (x.finds p info screen).Stays lib x.rules info screen
      { s.memory p with listed := listed } := by
    generalize x.finds p info screen = f at hstays ⊢
    cases f with
    | nobody => exact hstays
    | bound agent => exact ⟨hstays.bound, hstays.same⟩
    | announced agent => exact ⟨hstays.bound, hstays.same⟩
  split_ifs at hmem
  · obtain ⟨hnext, hout⟩ := @Found.Stays.dump lib x.rules info screen nowMs _ _ hstays'
    rw [← hmem] at hnext hout
    refine ⟨⟨hcalm.again, hnext⟩, fun msg hm y hy => hout y ?_⟩
    exact List.mem_filterMap.mpr ⟨msg, hm, hy⟩
  · obtain ⟨hnext, hout⟩ := Prod.mk.inj hmem
    refine ⟨⟨hcalm.again, hnext ▸ hstays'⟩, fun msg hm y hy => ?_⟩
    have hnone := List.mem_filterMap.mpr ⟨msg, hm, hy⟩
    rw [hout] at hnone
    cases hnone

section Main

variable {host : String} {m : Monitor} {r : AgentRecord} {msgs : List (ProbeMsg × ℕ)}

variable (lib x p t ts) in
/-- The scrape events of the pane that are told. -/
def scrapeEvents : List AgentEvent :=
  ((x.tells lib t ts).filterMap (·.event p)).filter (·.source = .scrape)

/-- The scrape events of the pane are all that its agent learns. -/
theorem run_tells (hr : m.tracker.get (p.key host) = some r)
    (hseen : ∀ ev ∈ recordEvents x.replay.records, ev.pane = p → r.Seen ev)
    (ha : x.answers.Idle) (h : x.answers.Shows p info screen)
    (hm : msgs.map Prod.fst = x.tells lib t ts) :
    (run (Monitor.take host) m msgs).tracker.get (p.key host) = some
        (run (AgentRecord.step m.tracker.cfg) r (x.scrapeEvents lib p t ts)) ∧
      alertsOf (p.key host) (outputs (Monitor.take host) m msgs) =
        outputs (AgentRecord.step m.tracker.cfg) r (x.scrapeEvents lib p t ts) := by
  have hspares : ∀ msg ∈ msgs, msg.1.Spares p :=
    fun msg hmem => spares_tells h _ (hm ▸ List.mem_map_of_mem hmem)
  have hevents : msgs.filterMap (·.1.event p) = (x.tells lib t ts).filterMap (·.event p) := by
    rw [← hm, List.filterMap_map]
    rfl
  obtain ⟨hrun, halerts⟩ := Monitor.run_spared hr hspares
  rw [hevents] at hrun halerts
  obtain ⟨hrun', halerts'⟩ := @AgentRecord.run_seen m.tracker.cfg r
    ((x.tells lib t ts).filterMap (·.event p)) fun ev hev hs => by
      obtain ⟨hread, hp⟩ := hook_tells ha hev hs
      exact hseen ev hread hp
  exact ⟨hrun.trans (congrArg some hrun'), halerts.trans halerts'⟩

/-- A scrape event is told in the first tick, or in the state that the screen settles in. -/
theorem mem_scrapeEvents (ha : x.answers.Idle) (h : x.answers.Shows p info screen) {ev : AgentEvent}
    (hev : ev ∈ x.scrapeEvents lib p t ts) : ev.source = .scrape ∧
      ((ev.agent, ev.state) ∈ (x.first lib t).2.filterMap (·.scraped p) ∨
        (x.finds p info screen).Settles x.rules screen ev.state) := by
  obtain ⟨hev, hs⟩ := List.mem_filter.mp hev
  obtain ⟨msg, hm, he⟩ := List.mem_filterMap.mp hev
  have hscraped : msg.scraped p = some (ev.agent, ev.state) := by
    cases msg with
    | agentEvent ev' =>
      simp only [ProbeMsg.event] at he
      split_ifs at he with hp
      obtain rfl := Option.some.inj he
      exact if_pos ⟨of_decide_eq_true hs, hp⟩
    | _ => cases he
  refine ⟨of_decide_eq_true hs, ?_⟩
  rcases List.mem_append.mp hm with hm | hm
  · exact .inl (List.mem_filterMap.mpr ⟨msg, hm, hscraped⟩)
  · exact .inr (settles_later ha h (List.mem_filterMap.mpr ⟨msg, hm, hscraped⟩))

theorem silent_of_quiet (hr : m.tracker.get (p.key host) = some r)
    (hseen : ∀ ev ∈ recordEvents x.replay.records, ev.pane = p → r.Seen ev)
    (ha : x.answers.Idle) (h : x.answers.Shows p info screen) (hq : x.Quiet p info screen r) :
    x.Silent lib p host m r := by
  intro t ts msgs hm
  obtain ⟨hrun, halerts⟩ := run_tells hr hseen ha h hm
  have hevents := fun ev => @mem_scrapeEvents lib x p info screen t ts ha h ev
  have hcase := @firstCase lib x p info screen t h
  rw [Quiet] at hq
  rw [hrun, halerts]
  generalize (x.first lib t).2.filterMap (·.scraped p) = out at hcase hevents
  generalize (x.first lib t).1.memory p = mem at hcase
  generalize x.finds p info screen = f at hq hevents hcase
  have hsame (h : ∀ ev ∈ x.scrapeEvents lib p t ts, ev.source = .scrape ∧ ev.state = r.state) :
      outputs (AgentRecord.step m.tracker.cfg) r (x.scrapeEvents lib p t ts) = [] ∧
        (r.acknowledged → x.Passed lib r.agent t ts → ∃ r', some
          (run (AgentRecord.step m.tracker.cfg) r (x.scrapeEvents lib p t ts)) = some r' ∧
            r'.state = r.state ∧ r'.acknowledged) := by
    obtain ⟨hrun, hout⟩ := @AgentRecord.run_same m.tracker.cfg r _ h
    rw [hrun]
    exact ⟨hout, fun hack _ => ⟨r, rfl, rfl, hack⟩⟩
  cases hcase with
  | nobody =>
    refine hsame fun ev hev => ?_
    obtain ⟨-, hout | hsettles⟩ := hevents ev hev
    · cases hout
    · exact hsettles.elim
  | bound =>
    refine hsame fun ev hev => ?_
    obtain ⟨hs, hout | hsettles⟩ := hevents ev hev
    · cases hout
    · exact ⟨hs, hq _ hsettles⟩
  | announced =>
    obtain ⟨hnone, hack⟩ := hq
    refine ⟨AgentRecord.outputs_calm fun ev hev => ?_, fun hack' => ?_⟩
    · obtain ⟨-, hout | hsettles⟩ := hevents ev hev
      · obtain ⟨-, hu⟩ := Prod.mk.inj (List.mem_singleton.mp hout)
        rw [hu]
        rfl
      · cases hnone.symm.trans hsettles
    · cases hack.symm.trans hack'

theorem alerting_settles {rules : CompiledRules} {agent : String} {state : AgentState}
    (h : rules.settles agent screen = some state) : isAlerting state := by
  obtain ⟨rule, -, hs⟩ := Option.bind_eq_some_iff.mp h
  rcases PaneMemory.settledState_mem hs with rfl | rfl <;> rfl

/-- The second scrape of the pane comes when it is due. -/
theorem scrapes_second {t' : ℕ} (hdue : 3000 ≤ t' - t) : (x.first lib t).1.scrapes t' = true := by
  have hlast : (x.first lib t).1.lastScrape = some t := lastScrape_again
  obtain ⟨hz, -, hi⟩ := settings_tick lib (Server.new true x.ack x.rules) t x.reading
  have hz' : (x.first lib t).1.zellij = true := hz
  have hi' : (x.first lib t).1.intervals = .default := hi
  rw [scrapes, hz', hi', hlast]
  exact decide_eq_true hdue

/-- When the stable time of a fresh agent has passed, the second scrape tells its state. -/
theorem scrapeEvents_second {agent : String} {t' : ℕ} (ha : x.answers.Idle)
    (h : x.answers.Shows p info screen) (hdue : 3000 ≤ t' - t)
    (hfresh : ((x.first lib t).1.memory p).Fresh lib x.rules info screen agent t)
    (hstable : ∀ rule, x.rules.rule agent = some rule → rule.stableMs ≤ t' - t) :
    x.scrapeEvents lib p t [t'] =
      ((x.first lib t).2.filterMap (·.scraped p)).map (scrapedEvent p t) ++
        (PaneMemory.reports agent (x.rules.settles agent screen)).map (scrapedEvent p t') := by
  obtain ⟨honce, hshown⟩ := @shown_first lib x p info screen t h
  obtain ⟨listed, hmem⟩ := @pane_again lib x.answers (x.first lib t).1 t' p _ x.rules info screen ha
    (calm_first h) honce hshown h.dump
  rw [if_pos (scrapes_second hdue)] at hmem
  have hfresh' : PaneMemory.Fresh lib x.rules info screen agent t
      { (x.first lib t).1.memory p with listed := listed } := ⟨hfresh.bound, hfresh.history⟩
  have hout := congrArg Prod.snd hmem
  simp only [hfresh'.settled hstable] at hout
  have hsecond : ((((x.first lib t).1.again lib x.answers t').2.filterMap (·.event p)).filter
      (·.source = .scrape)) = _ := scrapes_tick
  rw [scrapeEvents, tells, outputs_cons, outputs_nil, List.append_nil, List.filterMap_append,
    List.filter_append, hsecond, ← hout]
  exact congrArg (· ++ _) scrapes_tick

theorem exists_stable (rules : CompiledRules) (agent : String) :
    ∃ d, ∀ rule, rules.rule agent = some rule → rule.stableMs ≤ d := by
  cases rules.rule agent with
  | none => exact ⟨0, nofun⟩
  | some rule => exact ⟨rule.stableMs, fun _ hr => (Option.some.inj hr) ▸ Nat.le_refl _⟩

/-- A silent restart stays so when a fresh agent is scraped again after the stable times. -/
theorem silent_second {agent : String} (hr : m.tracker.get (p.key host) = some r)
    (hseen : ∀ ev ∈ recordEvents x.replay.records, ev.pane = p → r.Seen ev)
    (ha : x.answers.Idle) (h : x.answers.Shows p info screen) (hsilent : x.Silent lib p host m r)
    (hfresh : ((x.first lib t).1.memory p).Fresh lib x.rules info screen agent t) :
    ∃ t' evs, t ≤ t' ∧ evs = ((x.first lib t).2.filterMap (·.scraped p)).map (scrapedEvent p t) ++
        (PaneMemory.reports agent (x.rules.settles agent screen)).map (scrapedEvent p t') ∧
      outputs (AgentRecord.step m.tracker.cfg) r evs = [] ∧
      (r.acknowledged → (run (AgentRecord.step m.tracker.cfg) r evs).state = r.state) := by
  obtain ⟨stable, hstable⟩ := exists_stable x.rules agent
  obtain ⟨own, hown⟩ := exists_stable x.rules r.agent
  let t' := t + (3000 + stable + own)
  have hdue : 3000 ≤ t' - t := by omega
  have hevents : x.scrapeEvents lib p t [t'] = _ :=
    scrapeEvents_second ha h hdue hfresh fun rule hrule => by
      have hle := hstable rule hrule
      omega
  have hstamp := map_fst_stamp 0 (x.tells lib t [t'])
  obtain ⟨hquiet, hkept⟩ := hsilent t [t'] (stamp 0 (x.tells lib t [t'])) hstamp
  obtain ⟨hget, halerts⟩ := run_tells hr hseen ha h hstamp
  rw [hevents] at hget halerts
  refine ⟨t', _, by omega, rfl, halerts.symm.trans hquiet, fun hack => ?_⟩
  have hpassed : x.Passed lib r.agent t [t'] := by
    refine ⟨[], t', [], rfl, scrapes_second hdue, fun rule hrule => ?_⟩
    have hle := hown rule hrule
    omega
  obtain ⟨r', hr', hstate, -⟩ := hkept hack hpassed
  obtain rfl := Option.some.inj (hget.symm.trans hr')
  exact hstate

/-- Where the restart is silent, what it tells is no news. -/
theorem quiet_of_silent (hr : m.tracker.get (p.key host) = some r)
    (hseen : ∀ ev ∈ recordEvents x.replay.records, ev.pane = p → r.Seen ev)
    (ha : x.answers.Idle) (h : x.answers.Shows p info screen) (halerting : isAlerting r.state)
    (hsilent : x.Silent lib p host m r) : x.Quiet p info screen r := by
  -- the first tick comes when nothing holds a scrape event back
  obtain ⟨t, hlate⟩ := r.exists_late m.tracker.cfg
  have hcase := @firstCase lib x p info screen t h
  have hsecond := fun agent => @silent_second lib x p info screen t host m r agent hr hseen ha h hsilent
  rw [Quiet]
  generalize (x.first lib t).2.filterMap (·.scraped p) = out at hcase hsecond
  generalize (x.first lib t).1.memory p = mem at hcase hsecond
  generalize x.finds p info screen = f at hcase
  cases hcase with
  | nobody => trivial
  | @bound agent mem hfresh =>
    intro state hstate
    by_contra hne
    obtain ⟨t', evs, hle, rfl, hout, -⟩ := hsecond agent hfresh
    rw [hstate] at hout
    have hnone : (r.step m.tracker.cfg (scrapedEvent p t' (agent, state))).2 ++ [] = [] := hout
    rw [List.append_nil] at hnone
    exact (hlate.mono hle).alerts rfl (Ne.symm hne) (alerting_settles hstate) hnone
  | @announced agent mem hfresh =>
    obtain ⟨t', evs, hle, rfl, hout, hkept⟩ := hsecond agent hfresh
    obtain ⟨-, hunknown, hlate'⟩ :=
      @AgentRecord.Late.announce m.tracker.cfg r (scrapedEvent p t (agent, .unknown)) hlate rfl rfl
    cases hs : x.rules.settles agent screen with
    | some state =>
      rw [hs] at hout
      have halert := alerting_settles hs
      have hnone : (r.step m.tracker.cfg (scrapedEvent p t (agent, .unknown))).2 ++
          (((r.step m.tracker.cfg (scrapedEvent p t (agent, .unknown))).1.step m.tracker.cfg
            (scrapedEvent p t' (agent, state))).2 ++ []) = [] := hout
      rw [List.append_nil] at hnone
      obtain ⟨-, hnone⟩ := List.append_eq_nil_iff.mp hnone
      refine absurd hnone ((hlate' t' (hlate.mono hle)).alerts rfl ?_ halert)
      rw [hunknown]
      rintro rfl
      cases halert
    | none =>
      refine ⟨hs, ?_⟩
      by_contra hack
      rw [hs] at hkept
      have hstate : (r.step m.tracker.cfg (scrapedEvent p t (agent, .unknown))).1.state = r.state :=
        hkept (by simpa using hack)
      rw [← hstate, hunknown] at halerting
      cases halerting

/-- On a host that does not change, the restart of a server is silent for an agent that waits
for the user exactly when what the new server finds in its pane is no news. -/
theorem silent_iff {zellij : Bool} {ack : ℕ} {rules : CompiledRules} {cfg : TrackerConfig}
    {read : List (ℕ × SpoolRecord)} {s : Server}
    (hlife : Life lib host (.new zellij ack rules) cfg read s m)
    (hr : m.tracker.get (p.key host) = some r) (halerting : isAlerting r.state)
    (hreplay : x.replay.records ⊆ read) (ha : x.answers.Idle)
    (h : x.answers.Shows p info screen) :
    x.Silent lib p host m r ↔ x.Quiet p info screen r := by
  have hseen : ∀ ev ∈ recordEvents x.replay.records, ev.pane = p → r.Seen ev :=
    fun ev hev hp => hlife.seen hr hreplay hev hp
  constructor
  · exact quiet_of_silent hr hseen ha h halerting
  · exact silent_of_quiet hr hseen ha h

end Main

section Ask

open Settling

/-- Claude asks for a permission, by hook. -/
def permissionRecord : SpoolRecord :=
  ⟨0, "claude", "work", 1, .obj [("hook_event_name", .str "Notification"),
    ("notification_type", .str "permission_prompt")]⟩

/-- A new server of the host of `askTick`, which reads these records again. -/
def askAgain (records : List (ℕ × SpoolRecord)) : Restart :=
  ⟨⟨[askRule]⟩, 0, askTick [], ⟨records, 0, lastCursor 1 records⟩⟩

theorem shows_ask : (askTick []).Shows ⟨"work", 1⟩ askTarget.2 "?" :=
  ⟨⟨_, rfl, rfl⟩, ⟨_, rfl, rfl⟩, rfl, rfl⟩

theorem idle_ask : (askTick []).Idle := by
  rintro r ⟨⟩
  exact ⟨rfl, rfl⟩

theorem life_asked (records : List (ℕ × SpoolRecord)) :
    Life askLib "host" (.new true 0 ⟨[askRule]⟩) .default records (asked records).1
      (asked records).2 :=
  Life.start.step (i := .tick 0 (askTick records)) (map_fst_stamp _ _)

/-- The pane of the agent that asks. -/
def askPane : PaneRef := ⟨"work", 1⟩

/-- The record of an agent that asked by hook at time 0. -/
def askedRecord : AgentRecord where
  key := askPane.key "host"
  agent := "claude"
  state := .needsInput
  message := none
  acknowledged := false
  sinceMs := 0
  lastHookMs := some 0
  lastHookOffset := some 1
  lastAlert := some (.needsInput, 0)

/-- The hook that is read again binds the pane, and the screen shows the state of the hook. -/
theorem silent_iff_bound : (askAgain [(1, permissionRecord)]).Silent askLib askPane "host"
    (asked [(1, permissionRecord)]).2 askedRecord := by
  have hget : (asked [(1, permissionRecord)]).2.tracker.get (askPane.key "host") =
      some askedRecord := by decide +kernel
  refine (silent_iff (life_asked [(1, permissionRecord)]) hget rfl (List.Subset.refl _) idle_ask
    shows_ask).mpr fun state hstate => ?_
  have hsettles : (CompiledRules.mk [askRule]).settles "claude" "?" = some .needsInput := by decide
  exact (Option.some.inj (hsettles.symm.trans hstate)).symm

/-- After a second tick, which finds that the agent asks. -/
def askedTwice : Server × Monitor := playTick askLib "host" (asked []) (3000, askTick [])

/-- The record of an agent that was found to ask at time 3000, and was seen. -/
def seenRecord : AgentRecord where
  key := askPane.key "host"
  agent := "claude"
  state := .needsInput
  message := none
  acknowledged := true
  sinceMs := 3000
  lastHookMs := none
  lastHookOffset := none
  lastAlert := some (.needsInput, 3000)

theorem life_askedTwice : Life askLib "host" (.new true 0 ⟨[askRule]⟩) .default [] askedTwice.1
    (askedTwice.2.acknowledge (askPane.key "host")).1 :=
  .acknowledge ((life_asked []).step (i := .tick 3000 (askTick [])) (map_fst_stamp 3000 _))

/-- Long after it was seen, the agent is announced, and asks, anew. -/
theorem not_silent : ¬ ∀ (lib : ScrapeLib) (host : String) (zellij : Bool) (ack : ℕ)
    (rules : CompiledRules) (cfg : TrackerConfig) (read : List (ℕ × SpoolRecord)) (s : Server)
    (m : Monitor) (p : PaneRef) (r : AgentRecord) (x : Restart) (info : PaneInfo) (screen : String),
    Life lib host (.new zellij ack rules) cfg read s m → m.tracker.get (p.key host) = some r →
    x.rules = s.rules → x.replay.records ⊆ read → x.answers.Idle → x.answers.Shows p info screen →
    s.rules.settles r.agent screen = some r.state → x.Silent lib p host m r := by
  intro hall
  have hget : (askedTwice.2.acknowledge (askPane.key "host")).1.tracker.get (askPane.key "host") =
      some seenRecord := by decide +kernel
  have hrules : askedTwice.1.rules = ⟨[askRule]⟩ :=
    (settings_tick askLib (asked []).1 3000 (askTick [])).2.1.trans (rules_asked [])
  obtain ⟨hquiet, -⟩ := hall askLib "host" true 0 ⟨[askRule]⟩ .default [] _ _ askPane seenRecord
    (askAgain []) askTarget.2 "?" life_askedTwice hget hrules.symm (List.Subset.refl _) idle_ask
    shows_ask (by rw [hrules]; decide) 40000 [43000] (stamp 0 _) (map_fst_stamp 0 _)
  have halert : alertsOf (askPane.key "host") (outputs (Monitor.take "host")
      (askedTwice.2.acknowledge (askPane.key "host")).1
      (stamp 0 ((askAgain []).tells askLib 40000 [43000]))) =
        [⟨askPane.key "host", "claude", .needsInput, none⟩] := by decide +kernel
  cases halert.symm.trans hquiet

end Ask

end Restart

end MultiAi
