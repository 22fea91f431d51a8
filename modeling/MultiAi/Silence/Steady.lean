import MultiAi.Silence.Ledger
import MultiAi.Silence.Pane

/-! # Ticks of a host that does not change

The ticks that follow one another while the spool and zellij keep giving the same answers:
what they tell of the lists, and what they tell of each pane.
-/

namespace MultiAi

open Std Machine

def ProbeMsg.isSessions : ProbeMsg → Bool
  | .sessions _ => true
  | _ => false

def ProbeMsg.isPanes (name : String) : ProbeMsg → Bool
  | .panes session _ => session = name
  | _ => false

namespace Server

variable (lib : ScrapeLib) (a : TickAnswers)

/-- One more tick with the same answers. -/
def again (s : Server) (nowMs : ℕ) : Server × List ProbeMsg := s.tick lib nowMs a

variable {lib a} {s : Server} {nowMs : ℕ}

theorem readEvents_idle (ha : a.Idle) : readEvents a = [] := by
  unfold readEvents
  cases hr : a.read with
  | ok r => simp [(ha r hr).1, recordEvents]
  | error e => rfl

/-- Before its poll a tick tells of failures only. -/
theorem drained_tells (ha : a.Idle) :
    ∀ msg ∈ (s.runCleanup nowMs a).2 ++ ((s.runCleanup nowMs a).1.drainSpool a).2,
      ∃ code text, msg = .error code text := by
  intro msg hm
  rcases List.mem_append.mp hm with hm | hm
  · exact runCleanup_tells s nowMs a msg hm
  · obtain ⟨errors, herrors, hout⟩ := drainSpool_tells (s.runCleanup nowMs a).1 a
    rw [hout, readEvents_idle ha, List.map_nil, List.append_nil] at hm
    exact herrors msg hm

/-- A tick tells of failures, lists and scraped panes. -/
theorem again_tells (ha : a.Idle) : ∀ msg ∈ (s.again lib a nowMs).2, msg.isError ∨
    msg.isSessions ∨ (∃ name, msg.isPanes name) ∨
      ∃ pane agent state, msg = scrapeEvent pane agent state nowMs := by
  intro msg hm
  rw [again, tick_snd, List.append_assoc] at hm
  rcases List.mem_append.mp hm with hm | hm
  · obtain ⟨code, text, rfl⟩ := drained_tells ha msg hm
    exact .inl rfl
  · rcases List.mem_append.mp hm with hm | hm
    · rcases pollIfDue_tells _ _ _ msg hm with ⟨code, text, rfl⟩ | ⟨sessions, rfl⟩ | ⟨session, ps, rfl⟩
      · exact .inl rfl
      · exact .inr (.inl rfl)
      · exact .inr (.inr (.inl ⟨session, by simp [ProbeMsg.isPanes]⟩))
    · rcases scrapeIfDue_tells lib _ _ _ msg hm with ⟨code, text, rfl⟩ | ⟨target, -, agent, state, rfl⟩
      · exact .inl rfl
      · exact .inr (.inr (.inr ⟨_, _, _, rfl⟩))

/-- Lists are told by the poll of a tick. -/
theorem countP_again {q : ProbeMsg → Bool} (ha : a.Idle) (herror : ∀ code text, q (.error code text) = false)
    (hevent : ∀ ev, q (.agentEvent ev) = false) : (s.again lib a nowMs).2.countP q =
      ((s.drained nowMs a).pollIfDue nowMs a).2.countP q := by
  have hdrained : ((s.runCleanup nowMs a).2 ++
      ((s.runCleanup nowMs a).1.drainSpool a).2).countP q = 0 := by
    refine List.countP_eq_zero.mpr fun msg hm => ?_
    obtain ⟨code, text, rfl⟩ := drained_tells ha msg hm
    simp [herror]
  have hscrape : ((s.polled nowMs a).scrapeIfDue lib nowMs a).2.countP q = 0 := by
    refine List.countP_eq_zero.mpr fun msg hm => ?_
    rcases scrapeIfDue_tells lib _ _ _ msg hm with ⟨code, text, rfl⟩ | ⟨target, -, agent, state, rfl⟩
    · simp [herror]
    · simp [scrapeEvent, hevent]
  rw [again, tick_snd, List.countP_append, List.countP_append, hdrained, hscrape]
  omega

section Lists

variable {sessions : List SessionInfo} {name : String}

/-- Whether the session list is still to be told. -/
def sessionsLeft (a : TickAnswers) (s : Server) : ℕ :=
  match s.zellij, a.sessions with
  | true, .ok sessions => if s.sessions = some sessions then 0 else 1
  | _, _ => 0

/-- How often the pane list of a session is still to be told: once for each entry of the
session in the session list. -/
def panesLeft (a : TickAnswers) (name : String) (s : Server) : ℕ :=
  match s.zellij, a.sessions, a.panes name with
  | true, .ok sessions, .ok ps =>
    if s.paneList name = some ps then 0 else (liveSessions sessions).countP (·.name = name)
  | _, _, _ => 0

/-- Polling the sessions tells of failures and of pane lists. -/
theorem pollSession_tells {old : PaneLists} {acc : Polling} {live : List SessionInfo} {msg : ProbeMsg}
    (hm : msg ∈ outputs (pollSession old a.panes) acc live) :
    (∃ code text, msg = .error code text) ∨ ∃ name ps, msg = .panes name ps := by
  obtain ⟨acc, session, -, hm⟩ := exists_of_mem_outputs hm
  simp only [pollSession] at hm
  split at hm
  · split_ifs at hm
    · cases hm
    · exact .inr ⟨_, _, List.mem_singleton.mp hm⟩
  · exact .inl (report_tells _ _ _ _ msg hm)

theorem countP_pollSessions (old : PaneLists) (acc : Polling) (live : List SessionInfo) :
    (outputs (pollSession old a.panes) acc live).countP (·.isPanes name) =
      match a.panes name with
      | .ok ps => if old[name]? = some ps then 0 else live.countP (·.name = name)
      | .error _ => 0 := by
  induction live generalizing acc with
  | nil => cases a.panes name <;> simp
  | cons session live ih =>
    have hstep : (pollSession old a.panes acc session).2.countP (·.isPanes name) =
        if session.name = name then
          match a.panes name with
          | .ok ps => if old[name]? = some ps then 0 else 1
          | .error _ => 0
        else 0 := by
      simp only [pollSession]
      split_ifs with hn
      · subst hn
        cases a.panes session.name with
        | ok ps => by_cases ho : old[session.name]? = some ps <;> simp [ho, ProbeMsg.isPanes]
        | error e =>
          refine List.countP_eq_zero.mpr fun msg hm => ?_
          obtain ⟨code, text, rfl⟩ := report_tells _ _ _ _ msg hm
          simp [ProbeMsg.isPanes]
      · refine List.countP_eq_zero.mpr fun msg hm => ?_
        split at hm
        · split_ifs at hm
          · cases hm
          · rw [List.mem_singleton.mp hm]
            simp [ProbeMsg.isPanes, hn]
        · obtain ⟨code, text, rfl⟩ := report_tells _ _ _ _ msg hm
          simp [ProbeMsg.isPanes]
    rw [outputs_cons, List.countP_append, ih, hstep, List.countP_cons]
    cases a.panes name with
    | error e => simp
    | ok ps =>
      by_cases hn : session.name = name <;> by_cases ho : old[name]? = some ps <;>
        simp [hn, ho, Nat.add_comm]

theorem countP_liveSessions (h : ¬ sessionLive sessions name) :
    (liveSessions sessions).countP (·.name = name) = 0 := by
  rw [← any_liveSessions] at h
  exact List.countP_eq_zero.mpr fun x hx hn => h (List.any_eq_true.mpr ⟨x, hx, hn⟩)

theorem zellij_again : (s.again lib a nowMs).1.zellij = s.zellij := (settings_tick lib s nowMs a).1

theorem rules_again : (s.again lib a nowMs).1.rules = s.rules := (settings_tick lib s nowMs a).2.1

theorem zellij_of_polls (h : s.polls nowMs a = some sessions) : s.zellij = true := by
  unfold polls at h
  split_ifs at h with hdue
  exact (Bool.and_eq_true _ _ ▸ hdue).1

theorem sessions_again : (s.again lib a nowMs).1.sessions =
    ((s.drained nowMs a).pollIfDue nowMs a).1.sessions := sessions_scrapeIfDue ..

theorem paneList_again : (s.again lib a nowMs).1.paneList name =
    ((s.drained nowMs a).pollIfDue nowMs a).1.paneList name :=
  congrArg (fun lists : PaneLists => lists[name]?) (panes_scrapeIfDue ..)

/-- The session list is told once. -/
theorem sessions_left (ha : a.Idle) : (s.again lib a nowMs).2.countP (·.isSessions) +
    sessionsLeft a (s.again lib a nowMs).1 ≤ sessionsLeft a s := by
  have hsessions : (s.drained nowMs a).sessions = s.sessions :=
    congrArg Known.sessions (known_drained s nowMs a)
  rw [countP_again ha (fun _ _ => rfl) fun _ => rfl, sessionsLeft, sessionsLeft, sessions_again,
    zellij_again, ← hsessions]
  rcases pollIfDue_cases (s.drained nowMs a) nowMs a with
    ⟨-, hs, -, hout⟩ | ⟨sessions, hpolls, hs, -, hout⟩
  · have hzero : ((s.drained nowMs a).pollIfDue nowMs a).2.countP (·.isSessions) = 0 := by
      refine List.countP_eq_zero.mpr fun msg hm => ?_
      obtain ⟨code, text, rfl⟩ := hout msg hm
      simp [ProbeMsg.isSessions]
    rw [hzero, hs, zero_add]
  · have hanswer : a.sessions = .ok sessions := answer_of_polls hpolls
    have hz : s.zellij = true :=
      (congrArg Known.zellij (known_drained s nowMs a)).symm.trans (zellij_of_polls hpolls)
    have hpanes : (outputs (pollSession (s.drained nowMs a).panes a.panes)
        ⟨(s.drained nowMs a).failing.erase .sessions, ∅⟩ (liveSessions sessions)).countP
          (·.isSessions) = 0 := by
      refine List.countP_eq_zero.mpr fun msg hm => ?_
      rcases pollSession_tells hm with ⟨code, text, rfl⟩ | ⟨name, ps, rfl⟩ <;>
        simp [ProbeMsg.isSessions]
    rw [hout, hs, List.countP_append, hpanes]
    simp only [hz, hanswer, if_true]
    split_ifs <;> simp [ProbeMsg.isSessions]

/-- Each entry of the session list has its pane list told once. -/
theorem panes_left (ha : a.Idle) : (s.again lib a nowMs).2.countP (·.isPanes name) +
    panesLeft a name (s.again lib a nowMs).1 ≤ panesLeft a name s := by
  have hlist : (s.drained nowMs a).paneList name = s.paneList name :=
    congrArg (fun k : Known => k.panes[name]?) (known_drained s nowMs a)
  rw [countP_again ha (fun _ _ => rfl) fun _ => rfl, panesLeft, panesLeft, paneList_again,
    zellij_again, ← hlist]
  rcases pollIfDue_cases (s.drained nowMs a) nowMs a with
    ⟨-, -, hp, hout⟩ | ⟨sessions, hpolls, -, hp, hout⟩
  · have hzero : ((s.drained nowMs a).pollIfDue nowMs a).2.countP (·.isPanes name) = 0 := by
      refine List.countP_eq_zero.mpr fun msg hm => ?_
      obtain ⟨code, text, rfl⟩ := hout msg hm
      simp [ProbeMsg.isPanes]
    rw [hzero, paneList, paneList, hp, zero_add]
  · have hanswer : a.sessions = .ok sessions := answer_of_polls hpolls
    have hz : s.zellij = true :=
      (congrArg Known.zellij (known_drained s nowMs a)).symm.trans (zellij_of_polls hpolls)
    have hnews : (if (s.drained nowMs a).sessions = some sessions then []
        else [ProbeMsg.sessions sessions]).countP (·.isPanes name) = 0 := by
      split_ifs <;> simp [ProbeMsg.isPanes]
    rw [hout, hp, List.countP_append, hnews, countP_pollSessions, zero_add, pollList]
    cases hps : a.panes name with
    | error e => simp
    | ok ps =>
      have hold : (s.drained nowMs a).panes[name]? = (s.drained nowMs a).paneList name := rfl
      simp only [hz, hanswer, hold]
      by_cases hl : sessionLive sessions name
      · simp only [hl, if_true]
        omega
      · simp [hl, countP_liveSessions hl]

end Lists

section Panes

variable {p : PaneRef} {lists : PaneLists}

/-- The list of its session names a pane at most once. -/
def Once (lists : PaneLists) (p : PaneRef) : Prop :=
  ∀ ps, lists[p.session]? = some ps → ps.countP (·.id = p.paneId) ≤ 1

/-- The pane as a scrape of the lists meets it. -/
def shown (lists : PaneLists) (p : PaneRef) : Option PaneInfo :=
  (((allPanes lists).filter (!·.2.exited)).find? (·.1 = p)).map (·.2)

/-- A scrape is due. -/
def scrapes (s : Server) (nowMs : ℕ) : Bool :=
  s.zellij && due s.lastScrape s.intervals.scrapeMs nowMs

/-- The panes of a session, as a scrape meets them. -/
theorem countP_refs (session : String) (ps : List PaneInfo) :
    (ps.map fun q => ((⟨session, q.id⟩, q) : PaneRef × PaneInfo)).countP (·.1 = p) =
      if session = p.session then ps.countP (·.id = p.paneId) else 0 := by
  obtain ⟨pSession, paneId⟩ := p
  rw [List.countP_map]
  split_ifs with h
  · subst h
    exact List.countP_congr fun q _ => by simp
  · exact List.countP_eq_zero.mpr fun q _ => by simp [h]

theorem countP_flatMap {l : List (String × List PaneInfo)} (hd : l.Pairwise (·.1 ≠ ·.1))
    (hl : ∀ x ∈ l, x.1 = p.session → x.2.countP (·.id = p.paneId) ≤ 1) :
    (l.flatMap fun (session, ps) =>
      ps.map fun q => ((⟨session, q.id⟩, q) : PaneRef × PaneInfo)).countP (·.1 = p) ≤ 1 := by
  induction l with
  | nil => simp
  | cons x l ih =>
    obtain ⟨hx, hd⟩ := List.pairwise_cons.mp hd
    have hrest := ih hd fun y hy => hl y (List.mem_cons_of_mem _ hy)
    rw [List.flatMap_cons, List.countP_append, countP_refs]
    split_ifs with hsession
    · -- the other sessions have other names
      have hzero : (l.flatMap fun (session, ps) =>
          ps.map fun q => ((⟨session, q.id⟩, q) : PaneRef × PaneInfo)).countP (·.1 = p) = 0 := by
        refine List.countP_eq_zero.mpr fun target ht => ?_
        obtain ⟨y, hy, ht⟩ := List.mem_flatMap.mp ht
        obtain ⟨q, -, rfl⟩ := List.mem_map.mp ht
        have hne := hsession ▸ hx y hy
        simp only [decide_eq_true_eq]
        rintro rfl
        exact hne rfl
      have hone := hl x List.mem_cons_self hsession
      omega
    · omega

theorem countP_allPanes (h : Once lists p) : (allPanes lists).countP (·.1 = p) ≤ 1 := by
  refine countP_flatMap ?_ fun x hx hsession => ?_
  · refine ExtTreeMap.distinct_keys_toList.imp fun hne heq => hne ?_
    exact Std.compare_eq_iff_eq.mpr heq
  · obtain ⟨session, ps⟩ := x
    obtain rfl : session = p.session := hsession
    exact h ps (ExtTreeMap.mem_toList_iff_getElem?_eq_some.mp hx)

/-- Visits that change and tell nothing of a pane. -/
theorem visits_quiet {targets : List (PaneRef × PaneInfo)}
    (h : ∀ (s : Server), ∀ target ∈ targets,
      (scrapePane lib a.dump nowMs s target).1.memory p = s.memory p ∧
        (scrapePane lib a.dump nowMs s target).2.filterMap (·.scraped p) = []) :
    (run (scrapePane lib a.dump nowMs) s targets).memory p = s.memory p ∧
      (outputs (scrapePane lib a.dump nowMs) s targets).filterMap (·.scraped p) = [] := by
  induction targets generalizing s with
  | nil => exact ⟨rfl, rfl⟩
  | cons target targets ih =>
    obtain ⟨hmem, hout⟩ := h s target List.mem_cons_self
    obtain ⟨ihmem, ihout⟩ := @ih (scrapePane lib a.dump nowMs s target).1
      fun s target ht => h s target (List.mem_cons_of_mem _ ht)
    rw [run_cons, outputs_cons, List.filterMap_append, hout, ihout, ihmem, hmem]
    exact ⟨rfl, rfl⟩

theorem visits_ne {targets : List (PaneRef × PaneInfo)} (h : ∀ target ∈ targets, target.1 ≠ p) :
    (run (scrapePane lib a.dump nowMs) s targets).memory p = s.memory p ∧
      (outputs (scrapePane lib a.dump nowMs) s targets).filterMap (·.scraped p) = [] :=
  visits_quiet fun _ target ht => memory_scrapePane_ne (h target ht)

/-- A pane that cannot be dumped. -/
theorem visits_failed {targets : List (PaneRef × PaneInfo)} {e : String} (hd : a.dump p = .error e) :
    (run (scrapePane lib a.dump nowMs) s targets).memory p = s.memory p ∧
      (outputs (scrapePane lib a.dump nowMs) s targets).filterMap (·.scraped p) = [] := by
  refine visits_quiet ?_
  rintro s ⟨pane, info⟩ -
  by_cases hp : pane = p
  · subst hp
    have hcase := scrapeCase lib s nowMs a.dump pane info
    generalize scrapePane lib a.dump nowMs s (pane, info) = r at hcase
    cases hcase with
    | failed => exact ⟨rfl, scraped_report ..⟩
    | unbound hdump => cases hd.symm.trans hdump
    | observed hdump => cases hd.symm.trans hdump
  · exact memory_scrapePane_ne hp

/-- A pane that is visited once. -/
theorem visits_once {targets : List (PaneRef × PaneInfo)} {target : PaneRef × PaneInfo}
    {screen : String} (hcount : targets.countP (·.1 = p) ≤ 1)
    (hfind : targets.find? (·.1 = p) = some target) (hd : a.dump p = .ok screen) :
    ((run (scrapePane lib a.dump nowMs) s targets).memory p,
      (outputs (scrapePane lib a.dump nowMs) s targets).filterMap (·.scraped p)) =
      (s.memory p).step lib (.dump s.rules target.2 screen nowMs) := by
  induction targets generalizing s with
  | nil => cases hfind
  | cons x targets ih =>
    rw [run_cons, outputs_cons, List.filterMap_append]
    by_cases hx : x.1 = p
    · have htarget : x = target := by simpa [hx] using hfind
      have hrest : ∀ y ∈ targets, y.1 ≠ p := by
        rw [List.countP_cons_of_pos (by simpa using hx)] at hcount
        have hzero : targets.countP (·.1 = p) = 0 := by omega
        exact fun y hy => by simpa using List.countP_eq_zero.mp hzero y hy
      obtain ⟨hmem, hout⟩ := @visits_ne lib a (scrapePane lib a.dump nowMs s x).1 nowMs p
        targets hrest
      obtain ⟨pane, info⟩ := x
      obtain rfl : pane = p := hx
      rw [hmem, hout, List.append_nil, memory_scrapePane hd, ← htarget]
    · obtain ⟨hmem, hout⟩ := @memory_scrapePane_ne lib p s nowMs a x hx
      rw [List.countP_cons_of_neg (by simpa using hx)] at hcount
      rw [List.find?_cons_of_neg (by simpa using hx)] at hfind
      have hrules : (scrapePane lib a.dump nowMs s x).1.rules = s.rules :=
        congrArg Known.rules (known_scrapePane lib s nowMs a.dump x)
      rw [hout, List.nil_append, ih hcount hfind, hmem, hrules]

theorem memory_drained (ha : a.Idle) : (s.drained nowMs a).memory p = s.memory p := by
  rw [drained, ← @memory_runCleanup p s nowMs a]
  generalize (s.runCleanup nowMs a).1 = s
  cases hr : a.read with
  | error e =>
    simp only [drainSpool, hr]
    rfl
  | ok r =>
    simp only [drainSpool, hr, (ha r hr).1, run_nil]
    rfl

theorem paneExists_of_shown {info : PaneInfo} (h : shown lists p = some info) :
    paneExists lists p := by
  obtain ⟨target, hfind, -⟩ := Option.map_eq_some_iff.mp h
  obtain ⟨hmem, hp⟩ := List.mem_filter.mp (List.mem_of_find?_eq_some hfind)
  have htarget : target.1 = p := by simpa using List.find?_some hfind
  exact htarget ▸ Settling.mem_allPanes.mp (List.mem_map_of_mem hmem)

/-- A poll that lists the pane keeps what is known of it. -/
theorem memory_polled {info : PaneInfo} (ha : a.Idle) (hb : Settling.Backed s)
    (hlists : (s.polled nowMs a).panes = lists) (hshown : shown lists p = some info) :
    ∃ listed, (s.polled nowMs a).memory p = { s.memory p with listed := listed } := by
  have hexists : paneExists (s.polled nowMs a).panes p := hlists ▸ paneExists_of_shown hshown
  rw [← @memory_drained a s nowMs p ha]
  rw [polled] at hexists ⊢
  cases hpolls : (s.drained nowMs a).polls nowMs a with
  | none => exact ⟨_, memory_poll_none hpolls⟩
  | some sessions =>
    refine ⟨true, (memory_poll hb.drained hpolls).trans (if_pos ?_)⟩
    rcases pollIfDue_cases (s.drained nowMs a) nowMs a with ⟨hnone, -⟩ | ⟨sessions', hsome, -, hp, -⟩
    · cases hpolls.symm.trans hnone
    · obtain rfl := Option.some.inj (hpolls.symm.trans hsome)
      rw [← hp]
      exact hexists

/-- A tick, seen from a pane that is listed once. -/
theorem memory_again (hlists : (s.polled nowMs a).panes = lists) (honce : Once lists p) :
    ((s.again lib a nowMs).1.memory p, (s.again lib a nowMs).2.filterMap (·.scraped p)) =
      match shown lists p, a.dump p with
      | some info, .ok screen =>
        if s.scrapes nowMs then
          ((s.polled nowMs a).memory p).step lib (.dump s.rules info screen nowMs)
        else ((s.polled nowMs a).memory p, [])
      | _, _ => ((s.polled nowMs a).memory p, []) := by
  obtain ⟨hz, hrules, hi, hl⟩ := settings_polled s nowMs a
  have hscrapes : (s.polled nowMs a).scrapes nowMs = s.scrapes nowMs := by
    rw [scrapes, scrapes, hz, hi, hl]
  have hout : (s.again lib a nowMs).2.filterMap (·.scraped p) =
      ((s.polled nowMs a).scrapeIfDue lib nowMs a).2.filterMap (·.scraped p) := by
    rw [again, tick_snd, List.filterMap_append]
    exact (congrArg (· ++ _) scraped_news).trans (List.nil_append _)
  rw [hout, again, tick_fst, scrapeIfDue, ← scrapes, hscrapes]
  by_cases hs : s.scrapes nowMs
  · simp only [hs, if_true]
    have hframe : (s.scraping nowMs a).memory p = (s.polled nowMs a).memory p := rfl
    have htargets : (s.scraping nowMs a).targets = (allPanes lists).filter (!·.2.exited) := by
      rw [← hlists]
      rfl
    have hcount : ((allPanes lists).filter (!·.2.exited)).countP (·.1 = p) ≤ 1 :=
      (List.Sublist.countP_le List.filter_sublist).trans (countP_allPanes honce)
    change ((scrapePanes lib (s.scraping nowMs a) nowMs a).1.memory p,
      (scrapePanes lib (s.scraping nowMs a) nowMs a).2.filterMap (·.scraped p)) = _
    rw [scrapePanes, htargets]
    cases hd : a.dump p with
    | error e =>
      obtain ⟨hmem, hout⟩ := @visits_failed lib a (s.scraping nowMs a) nowMs p
        ((allPanes lists).filter (!·.2.exited)) e hd
      rw [hmem, hout, hframe]
      cases shown lists p <;> rfl
    | ok screen =>
      cases hfind : ((allPanes lists).filter (!·.2.exited)).find? (·.1 = p) with
      | none =>
        have hne : ∀ target ∈ (allPanes lists).filter (!·.2.exited), target.1 ≠ p :=
          fun target ht => by simpa using List.find?_eq_none.mp hfind target ht
        obtain ⟨hmem, hout⟩ := @visits_ne lib a (s.scraping nowMs a) nowMs p _ hne
        rw [hmem, hout, hframe, shown, hfind]
        rfl
      | some target =>
        rw [shown, hfind, @visits_once lib a (s.scraping nowMs a) nowMs p _ target screen hcount hfind
          hd, hframe, ← hrules]
        rfl
  · simp only [hs, Bool.false_eq_true, if_false]
    cases shown lists p <;> cases a.dump p <;> rfl

/-- What is left to report of a pane, as the lists show it. -/
def reportsLeft (lib : ScrapeLib) (a : TickAnswers) (lists : PaneLists) (p : PaneRef) (s : Server) :
    Tally :=
  match s.zellij, shown lists p, a.dump p with
  | true, some info, .ok screen => (s.memory p).left lib s.rules info screen
  | _, _, _ => 0

/-- What a message reports of a pane. -/
def weight (p : PaneRef) (msg : ProbeMsg) : Tally := (msg.scraped p).elim 0 (·.2.price)

/-- A tick reports of a pane what was left to report. -/
theorem reports_left (ha : a.Idle) (hb : Settling.Backed s)
    (hlists : (s.polled nowMs a).panes = lists) (honce : Once lists p) :
    cost (weight p) (s.again lib a nowMs).2 + reportsLeft lib a lists p (s.again lib a nowMs).1 ≤
      reportsLeft lib a lists p s := by
  have hpaid : cost (weight p) (s.again lib a nowMs).2 =
      PaneMemory.paid ((s.again lib a nowMs).2.filterMap (·.scraped p)) :=
    (cost_filterMap ..).symm
  have hmem := @memory_again lib a s nowMs p lists hlists honce
  rw [hpaid, reportsLeft, reportsLeft, rules_again, zellij_again]
  generalize (s.again lib a nowMs).1.memory p = m at hmem ⊢
  generalize (s.again lib a nowMs).2.filterMap (·.scraped p) = out at hmem ⊢
  cases hshown : shown lists p with
  | none =>
    rw [hshown] at hmem
    obtain ⟨-, rfl⟩ := Prod.mk.inj hmem
    cases s.zellij <;> exact (zero_add (0 : Tally)).le
  | some info =>
    obtain ⟨listed, hpolled⟩ := memory_polled ha hb hlists hshown
    have hleft : ∀ screen, ((s.polled nowMs a).memory p).left lib s.rules info screen =
        (s.memory p).left lib s.rules info screen := by
      intro screen
      rw [hpolled]
      rfl
    rw [hshown] at hmem
    cases hd : a.dump p with
    | error e =>
      rw [hd] at hmem
      obtain ⟨-, rfl⟩ := Prod.mk.inj hmem
      cases s.zellij <;> exact (zero_add (0 : Tally)).le
    | ok screen =>
      simp only [hd] at hmem
      split_ifs at hmem with hs
      · have hz : s.zellij = true := (Bool.and_eq_true _ _ ▸ hs).1
        have hpaid := @PaneMemory.paid_dump lib s.rules info screen ((s.polled nowMs a).memory p) nowMs
        simp only [hz, ← hleft]
        rwa [← hmem] at hpaid
      · obtain ⟨rfl, rfl⟩ := Prod.mk.inj hmem
        cases s.zellij with
        | false => exact (zero_add (0 : Tally)).le
        | true => exact (zero_add _).le.trans (hleft screen).le

theorem reportsLeft_le : reportsLeft lib a lists p s ≤ (1, 1, 2) := by
  unfold reportsLeft
  split
  · exact PaneMemory.left_le _
  · exact ⟨by simp, by simp, by simp⟩

end Panes

end Server

end MultiAi
