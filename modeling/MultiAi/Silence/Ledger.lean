import MultiAi.Library.Budget
import MultiAi.Agreement.Scrape

/-! # Failures of a host that does not change

When the spool and zellij keep giving the same answers, a scope that fails is reported once:
it stays noted as failing, or it is not asked again.
-/

namespace MultiAi

open Std Machine

/-- What a call failed with. -/
def errorOf {α : Type} : Except String α → Option String
  | .ok _ => none
  | .error e => some e

/-- The spool has no record that was not read, and no line that cannot be parsed. -/
def TickAnswers.Idle (a : TickAnswers) : Prop :=
  ∀ r, a.read = .ok r → r.records = [] ∧ r.badLines = 0

/-- The failure of a scope, where the spool and zellij answer `a`; `none` is the spool. -/
def TickAnswers.failure (a : TickAnswers) : Option Scope → Option ProbeMsg
  | none => (errorOf a.read).map (.error "spool_read")
  | some .cleanup => (errorOf a.cleanup).map (.error "spool_cleanup")
  | some .sessions => (errorOf a.sessions).map (.error "zellij")
  | some (.panes name) => (errorOf (a.panes name)).map (.error "zellij")
  | some (.dump pane) => (errorOf (a.dump pane)).map (.error "zellij")

def ProbeMsg.isError : ProbeMsg → Bool
  | .error .. => true
  | _ => false

namespace Server

/-- A scope is noted as failing. -/
def fails (s : Server) : Option Scope → Prop
  | none => s.spoolFailing
  | some scope => scope ∈ s.failing

/-- A list holds the pane, and the pane has not exited. -/
def holdsOpen (list : Option (List PaneInfo)) (pane : PaneRef) : Bool :=
  list.any fun ps => ps.any fun q => q.id = pane.paneId && !q.exited

/-- A scope may be asked, now or after a poll. -/
def asked (s : Server) (a : TickAnswers) : Option Scope → Prop
  | none | some .cleanup => True
  | some .sessions => s.zellij
  | some (.panes name) => s.zellij ∧ ∃ sessions, a.sessions = .ok sessions ∧ sessionLive sessions name
  | some (.dump pane) => s.zellij ∧ (holdsOpen (s.paneList pane.session) pane ∨
      ∃ sessions, a.sessions = .ok sessions ∧ holdsOpen (s.pollList a sessions pane.session) pane)

/-- The scopes whose failure is still to be reported. -/
def owed (a : TickAnswers) (s : Server) : Set (Option Scope) :=
  {x | (a.failure x).isSome ∧ ¬ s.fails x ∧ s.asked a x}

/-- A step pays what was owed: it reports failures that were owed and are not owed any more. -/
def Pays (a : TickAnswers) (s : Server) (r : Server × List ProbeMsg) : Prop :=
  ∃ scopes, Spends a.failure (owed a s) (r.2.filter (·.isError)) (owed a r.1) scopes

variable {lib : ScrapeLib} {s s' s'' : Server} {nowMs : ℕ} {a : TickAnswers}

theorem Pays.trans {out out' : List ProbeMsg} (h : Pays a s (s', out)) (h' : Pays a s' (s'', out')) :
    Pays a s (s'', out ++ out') := by
  obtain ⟨scopes, h⟩ := h
  obtain ⟨scopes', h'⟩ := h'
  refine ⟨scopes ++ scopes', ?_⟩
  rw [List.filter_append]
  exact h.trans h'

theorem asked_congr (hz : s'.zellij = s.zellij) (hp : s'.panes = s.panes) (x : Option Scope) :
    s'.asked a x ↔ s.asked a x := by
  have hlist : s'.paneList = s.paneList := by
    funext name
    rw [paneList, paneList, hp]
  have hpoll : s'.pollList a = s.pollList a := by
    funext sessions name
    rw [pollList, pollList, hlist]
  cases x with
  | none => exact Iff.rfl
  | some scope =>
    cases scope with
    | sessions => simp only [asked, hz]
    | panes session => simp only [asked, hz]
    | dump pane => simp only [asked, hz, hlist, hpoll]
    | cleanup => exact Iff.rfl

theorem owed_mono (hz : s'.zellij = s.zellij) (hp : s'.panes = s.panes)
    (h : ∀ x, (a.failure x).isSome → s.fails x → s'.fails x) : owed a s' ⊆ owed a s := by
  rintro x ⟨hx, hnot, hasked⟩
  exact ⟨hx, fun hfails => hnot (h x hx hfails), (asked_congr hz hp x).mp hasked⟩

/-- Messages that are no failures, from a server with no more to report. -/
theorem Pays.of_subset {out : List ProbeMsg} (hout : ∀ msg ∈ out, msg.isError = false)
    (h : owed a s' ⊆ owed a s) : Pays a s (s', out) := by
  refine ⟨[], ?_⟩
  rw [List.filter_eq_nil_iff.mpr fun msg hm => by simp [hout msg hm]]
  exact .nil h

/-- A scope that failed. -/
theorem Pays.report {scope : Scope} {code e : String}
    (hf : a.failure (some scope) = some (.error code e)) (hasked : s.asked a (some scope)) :
    Pays a s ({ s with failing := (report s.failing scope (.error code e)).1 },
      (report s.failing scope (.error code e)).2) := by
  have hsub : owed a { s with failing := insert scope s.failing } ⊆ owed a s := by
    refine owed_mono rfl rfl fun x _ hfails => ?_
    cases x with
    | none => exact hfails
    | some x => exact Finset.mem_insert_of_mem hfails
  simp only [MultiAi.report]
  split_ifs with hmem
  · exact .of_subset (by simp) hsub
  · refine ⟨[some scope], Spends.single hf ⟨by simp [hf], hmem, hasked⟩ ?_ hsub⟩
    rintro ⟨-, hnot, -⟩
    exact hnot (Finset.mem_insert_self scope s.failing)

/-- A scope that did not fail. -/
theorem Pays.erase {scope : Scope} (hf : a.failure (some scope) = none) :
    owed a { s with failing := s.failing.erase scope } ⊆ owed a s := by
  refine owed_mono rfl rfl fun x hx hfails => ?_
  cases x with
  | none => exact hfails
  | some x =>
    refine Finset.mem_erase.mpr ⟨?_, hfails⟩
    rintro rfl
    simp [hf] at hx

theorem pays_runCleanup : Pays a s (s.runCleanup nowMs a) := by
  unfold runCleanup
  split_ifs
  · cases hc : a.cleanup with
    | ok n => exact .of_subset (by simp) (Pays.erase (by simp [TickAnswers.failure, hc, errorOf]))
    | error e =>
      exact Pays.report (s := { s with lastCleanup := some nowMs })
        (by simp [TickAnswers.failure, hc, errorOf]) trivial
  · exact .of_subset (by simp) subset_rfl

theorem pays_drainSpool (ha : a.Idle) : Pays a s (s.drainSpool a) := by
  unfold drainSpool
  cases hr : a.read with
  | error e =>
    have hsub : owed a { s with spoolFailing := true } ⊆ owed a s := by
      refine owed_mono rfl rfl fun x _ hfails => ?_
      cases x with
      | none => rfl
      | some x => exact hfails
    simp only
    split_ifs with hfails
    · exact .of_subset (by simp) hsub
    · have hf : a.failure none = some (.error "spool_read" e) := by
        simp [TickAnswers.failure, hr, errorOf]
      refine ⟨[none], Spends.single hf ⟨by simp [hf], hfails, trivial⟩ ?_ hsub⟩
      rintro ⟨-, hnot, -⟩
      exact hnot rfl
  | ok r =>
    obtain ⟨hrecords, hbad⟩ := ha r hr
    simp only [hrecords, hbad, lt_self_iff_false, if_false, List.nil_append, outputs_nil, run_nil]
    refine .of_subset (by simp) (owed_mono rfl rfl fun x hx hfails => ?_)
    cases x with
    | none => simp [TickAnswers.failure, hr, errorOf] at hx
    | some x => exact hfails

/-- Binding a pane notes no failure. -/
theorem failing_bindScrape (pane : PaneRef) (info : PaneInfo) (screen : String) :
    (s.bindScrape pane info screen nowMs).1.failing = s.failing ∧
      (s.bindScrape pane info screen nowMs).1.spoolFailing = s.spoolFailing := by
  have hcase := bindCase s nowMs pane info screen
  generalize s.bindScrape pane info screen nowMs = r at hcase
  cases hcase <;> exact ⟨rfl, rfl⟩

theorem owed_congr (hf : s'.failing = s.failing) (hs : s'.spoolFailing = s.spoolFailing)
    (hz : s'.zellij = s.zellij) (hp : s'.panes = s.panes) : owed a s' = owed a s := by
  have hfails : ∀ x, s'.fails x ↔ s.fails x := by
    intro x
    cases x with
    | none => simp [fails, hs]
    | some x => simp [fails, hf]
  exact (owed_mono hz hp fun x _ => (hfails x).mpr).antisymm
    (owed_mono hz.symm hp.symm fun x _ => (hfails x).mp)

theorem pays_scrapePane {target : PaneRef × PaneInfo} (hz : s.zellij)
    (ht : holdsOpen (s.paneList target.1.session) target.1) :
    Pays a s (scrapePane lib a.dump nowMs s target) := by
  obtain ⟨pane, info⟩ := target
  -- a dump that was answered changes what fails by its own scope
  have hbound {screen : String} {s' : Server} {found : Option String} {out : List ProbeMsg}
      (hd : a.dump pane = .ok screen)
      (hb : bindScrape { s with failing := s.failing.erase (.dump pane) } pane info screen nowMs =
        (s', found, out)) : owed a s' ⊆ owed a s ∧ ∀ msg ∈ out, msg.isError = false := by
    have hframe := @failing_bindScrape { s with failing := s.failing.erase (.dump pane) } nowMs pane
      info screen
    have hknown := known_bindScrape { s with failing := s.failing.erase (.dump pane) } nowMs pane info
      screen
    have htells := bindScrape_tells { s with failing := s.failing.erase (.dump pane) } nowMs pane info
      screen
    rw [hb] at hframe hknown htells
    constructor
    · rw [owed_congr hframe.1 hframe.2 (congrArg Known.zellij hknown) (congrArg Known.panes hknown)]
      exact Pays.erase (by simp [TickAnswers.failure, hd, errorOf])
    · intro msg hm
      obtain ⟨agent, state, rfl⟩ := htells msg hm
      rfl
  have hcase := scrapeCase lib s nowMs a.dump pane info
  generalize scrapePane lib a.dump nowMs s (pane, info) = r at hcase
  cases hcase with
  | failed hd => exact .report (by simp [TickAnswers.failure, hd, errorOf]) ⟨hz, .inl ht⟩
  | unbound hd hb =>
    obtain ⟨hsub, hout⟩ := hbound hd hb
    exact .of_subset hout hsub
  | observed hd hb =>
    obtain ⟨hsub, hout⟩ := hbound hd hb
    refine .of_subset (fun msg hm => ?_) hsub
    rcases List.mem_append.mp hm with hm | hm
    · exact hout msg hm
    · obtain ⟨state, -, rfl⟩ := Option.map_eq_some_iff.mp (Option.mem_toList.mp hm)
      rfl

theorem holdsOpen_target {target : PaneRef × PaneInfo} (h : target ∈ s.targets) :
    holdsOpen (s.paneList target.1.session) target.1 := by
  obtain ⟨ps, hlist, hmem, hid, hopen⟩ := mem_targets s h
  rw [hlist]
  exact List.any_eq_true.mpr ⟨target.2, hmem, by simp [hid, hopen]⟩

theorem pays_targets {targets : List (PaneRef × PaneInfo)} (hz : s.zellij)
    (ht : ∀ target ∈ targets, holdsOpen (s.paneList target.1.session) target.1) :
    Pays a s (Machine.run (scrapePane lib a.dump nowMs) s targets,
      Machine.outputs (scrapePane lib a.dump nowMs) s targets) := by
  have hstep : ∀ (s' : Server) (target : PaneRef × PaneInfo), s'.known = s.known →
      holdsOpen (s.paneList target.1.session) target.1 →
      (scrapePane lib a.dump nowMs s' target).1.known = s.known ∧
        Pays a s' (scrapePane lib a.dump nowMs s' target) := by
    intro s' target hknown ht
    refine ⟨(known_scrapePane lib s' nowMs a.dump target).trans hknown, pays_scrapePane ?_ ?_⟩
    · exact (congrArg Known.zellij hknown).trans hz
    · rwa [paneList, show s'.panes = s.panes from congrArg Known.panes hknown]
  exact spends_outputs hstep rfl (.of_forall fun target hm _ => ht target hm)

theorem pays_scrapeIfDue : Pays a s (s.scrapeIfDue lib nowMs a) := by
  unfold scrapeIfDue
  split_ifs with hdue
  · exact pays_targets (s := { s with lastScrape := some nowMs }) (Bool.and_eq_true _ _ ▸ hdue).1
      fun target ht => holdsOpen_target (s := s) ht
  · exact .of_subset (by simp) subset_rfl

section Poll

variable {sessions : List SessionInfo}

/-- The sessions of a poll whose failure is still to be reported. -/
def owedLists (a : TickAnswers) (live : List SessionInfo) (acc : Polling) : Set (Option Scope) :=
  {x | ∃ name, x = some (.panes name) ∧ (a.failure x).isSome ∧ live.any (·.name = name) ∧
    .panes name ∉ acc.failing}

theorem spends_pollSession {old : PaneLists} {live : List SessionInfo} {acc : Polling}
    {session : SessionInfo} (hlive : live.any (·.name = session.name)) :
    ∃ scopes, Spends a.failure (owedLists a live acc)
      ((pollSession old a.panes acc session).2.filter (·.isError))
      (owedLists a live (pollSession old a.panes acc session).1) scopes := by
  simp only [pollSession]
  cases hp : a.panes session.name with
  | ok ps =>
    refine ⟨[], ?_⟩
    have hout : (if old[session.name]? = some ps then []
        else [ProbeMsg.panes session.name ps]).filter (·.isError) = [] := by
      split_ifs <;> rfl
    simp only [hout]
    refine .nil ?_
    rintro _ ⟨name, rfl, hf, hl, hnot⟩
    refine ⟨name, rfl, hf, hl, fun hmem => hnot (Finset.mem_erase.mpr ⟨?_, hmem⟩)⟩
    rintro ⟨⟩
    simp [TickAnswers.failure, hp, errorOf] at hf
  | error e =>
    have hf : a.failure (some (.panes session.name)) = some (.error "zellij" e) := by
      simp [TickAnswers.failure, hp, errorOf]
    have hsub : ∀ fresh, owedLists a live ⟨insert (.panes session.name) acc.failing, fresh⟩ ⊆
        owedLists a live acc := by
      rintro fresh _ ⟨name, rfl, hx, hl, hnot⟩
      exact ⟨name, rfl, hx, hl, fun hmem => hnot (Finset.mem_insert_of_mem hmem)⟩
    simp only [MultiAi.report]
    split_ifs with hmem
    · exact ⟨[], .nil (hsub _)⟩
    · refine ⟨[some (.panes session.name)], Spends.single hf ⟨_, rfl, by simp [hf], hlive, hmem⟩ ?_
        (hsub _)⟩
      rintro ⟨name, hname, -, -, hnot⟩
      cases hname
      exact hnot (Finset.mem_insert_self _ _)

theorem spends_pollSessions (old : PaneLists) (live : List SessionInfo) (acc : Polling) :
    ∃ scopes, Spends a.failure (owedLists a live acc)
      ((outputs (pollSession old a.panes) acc live).filter (·.isError))
      (owedLists a live (run (pollSession old a.panes) acc live)) scopes := by
  have hrun : Along (pollSession old a.panes)
      (fun _ (session : SessionInfo) => live.any (·.name = session.name)) acc live :=
    .of_forall fun session hm _ => List.any_eq_true.mpr ⟨session, hm, by simp⟩
  have hstep : ∀ (acc : Polling) (session : SessionInfo), True → live.any (·.name = session.name) →
      True ∧ ∃ scopes, Spends a.failure (owedLists a live acc)
        ((pollSession old a.panes acc session).2.filter (·.isError))
        (owedLists a live (pollSession old a.panes acc session).1) scopes :=
    fun _ _ _ hl => ⟨trivial, spends_pollSession hl⟩
  exact spends_outputs hstep trivial hrun

/-- Other scopes fail after a poll as before. -/
theorem failing_pollSessions (old : PaneLists) (panes : String → Except String (List PaneInfo))
    (acc : Polling) (live : List SessionInfo) {scope : Scope} (h : ∀ name, scope ≠ .panes name) :
    scope ∈ (Machine.run (pollSession old panes) acc live).failing ↔ scope ∈ acc.failing := by
  induction live generalizing acc with
  | nil => exact Iff.rfl
  | cons session live ih =>
    rw [run_cons, ih]
    simp only [pollSession]
    cases panes session.name <;> simp [MultiAi.report, h session.name]

/-- A list that is answered with a failure is noted. -/
theorem failing_lists {old : PaneLists} {panes : String → Except String (List PaneInfo)}
    {name e : String} (hp : panes name = .error e) {acc : Polling} {live : List SessionInfo}
    (h : .panes name ∈ acc.failing ∨ ∃ session ∈ live, session.name = name) :
    .panes name ∈ (Machine.run (pollSession old panes) acc live).failing := by
  induction live generalizing acc with
  | nil => simpa using h
  | cons session live ih =>
    refine ih ?_
    rcases h with h | ⟨x, hx, hn⟩
    · left
      simp only [pollSession]
      cases hs : panes session.name with
      | error e' => exact Finset.mem_insert_of_mem h
      | ok ps =>
        refine Finset.mem_erase.mpr ⟨?_, h⟩
        rintro ⟨⟩
        cases hp.symm.trans hs
    · rcases List.mem_cons.mp hx with rfl | hx
      · left
        simp only [pollSession, hn, hp]
        exact Finset.mem_insert_self _ _
      · exact .inr ⟨x, hx, hn⟩

theorem fresh_pollSessions (failing : Finset Scope) (sessions : List SessionInfo) (name : String) :
    (Machine.run (pollSession s.panes a.panes) ⟨failing, ∅⟩ (liveSessions sessions)).fresh[name]? =
      s.pollList a sessions name := by
  rw [pollSession_fresh, any_liveSessions, pollList, paneList]
  cases a.panes name <;> simp

/-- A second poll that is answered alike changes no list. -/
theorem pollList_polled {name : String}
    (h : ∀ name, s'.panes[name]? = s.pollList a sessions name) :
    s'.pollList a sessions name = s.pollList a sessions name := by
  rw [pollList, paneList, h, pollList]
  split_ifs
  · cases a.panes name <;> rfl
  · rfl

theorem paneExists_of_holdsOpen {lists : PaneLists} {pane : PaneRef}
    (h : holdsOpen lists[pane.session]? pane) : paneExists lists pane := by
  rw [paneExists]
  cases hlist : lists[pane.session]? with
  | none =>
    rw [hlist] at h
    cases h
  | some ps =>
    rw [hlist] at h
    obtain ⟨q, hq, hopen⟩ := List.any_eq_true.mp h
    exact List.any_eq_true.mpr ⟨q, hq, (Bool.and_eq_true _ _ ▸ hopen).1⟩

theorem pays_pollPanes (hz : s.zellij) : Pays a s (s.pollPanes a) := by
  unfold pollPanes
  cases hs : a.sessions with
  | error e => exact .report (by simp [TickAnswers.failure, hs, errorOf]) hz
  | ok sessions =>
    have hspends := spends_pollSessions (a := a) s.panes (liveSessions sessions)
      ⟨s.failing.erase .sessions, ∅⟩
    have hfresh := fresh_pollSessions (s := s) (a := a) (s.failing.erase .sessions) sessions
    have hkeep := fun scope h => @failing_pollSessions s.panes a.panes ⟨s.failing.erase .sessions, ∅⟩
      (liveSessions sessions) scope h
    obtain ⟨scopes, hspends⟩ := hspends
    simp only
    generalize Machine.run (pollSession s.panes a.panes) ⟨s.failing.erase .sessions, ∅⟩
      (liveSessions sessions) = polled at hspends hfresh hkeep ⊢
    refine ⟨scopes, ?_⟩
    have hnews : (if s.sessions = some sessions then []
        else [ProbeMsg.sessions sessions]).filter (·.isError) = [] := by
      split_ifs <;> rfl
    rw [List.filter_append, hnews, List.nil_append]
    refine hspends.lift ?_ ?_ ?_
    · rintro _ ⟨name, rfl, hf, hl, hnot⟩
      refine ⟨hf, fun hmem => hnot (Finset.mem_erase.mpr ⟨nofun, hmem⟩), hz, sessions, hs, ?_⟩
      rwa [← any_liveSessions]
    · rintro x ⟨hf, hnot, hasked⟩
      -- a scope that was noted before the poll is noted after it, if it may still be asked
      cases x with
      | none => exact ⟨hf, hnot, hasked⟩
      | some scope =>
        cases scope with
        | sessions => simp [TickAnswers.failure, hs, errorOf] at hf
        | cleanup =>
          refine ⟨hf, fun hmem => hnot (Finset.mem_filter.mpr ⟨?_, rfl⟩), trivial⟩
          exact (hkeep .cleanup nofun).mpr (Finset.mem_erase.mpr ⟨nofun, hmem⟩)
        | panes name =>
          obtain ⟨-, sessions', hs', hl⟩ := hasked
          obtain rfl := Except.ok.inj (hs.symm.trans hs')
          have hl' : (liveSessions sessions).any (·.name = name) := by rwa [any_liveSessions]
          have howed : some (.panes name) ∈ owedLists a (liveSessions sessions) polled :=
            ⟨name, rfl, hf, hl', fun hmem => hnot (Finset.mem_filter.mpr ⟨hmem, hl'⟩)⟩
          obtain ⟨_, ⟨⟩, -, -, hnot'⟩ := hspends.subset howed
          exact ⟨hf, fun hmem => hnot' (Finset.mem_erase.mpr ⟨nofun, hmem⟩), hz, sessions, hs, hl⟩
        | dump pane =>
          have hopen : holdsOpen (s.pollList a sessions pane.session) pane := by
            rcases hasked.2 with hopen | ⟨sessions', hs', hopen⟩
            · exact hfresh pane.session ▸ hopen
            · obtain rfl := Except.ok.inj (hs.symm.trans hs')
              rwa [pollList_polled hfresh] at hopen
          have hthere : paneExists polled.fresh pane :=
            paneExists_of_holdsOpen ((hfresh pane.session).symm ▸ hopen)
          refine ⟨hf, fun hmem => hnot (Finset.mem_filter.mpr ⟨?_, hthere⟩), hz, ?_⟩
          · exact (hkeep (.dump pane) nofun).mpr (Finset.mem_erase.mpr ⟨nofun, hmem⟩)
          · exact .inr ⟨sessions, hs, hopen⟩
    · rintro _ ⟨name, rfl, hf, hl, -⟩ ⟨-, hnot, -⟩
      exact ⟨name, rfl, hf, hl, fun hmem => hnot (Finset.mem_filter.mpr ⟨hmem, hl⟩)⟩

theorem pays_pollIfDue : Pays a s (s.pollIfDue nowMs a) := by
  unfold pollIfDue
  split_ifs with hdue
  · exact pays_pollPanes (s := { s with lastPanePoll := some nowMs }) (Bool.and_eq_true _ _ ▸ hdue).1
  · exact .of_subset (by simp) subset_rfl

end Poll

theorem failing_scrapePane (target : PaneRef × PaneInfo) :
    (scrapePane lib a.dump nowMs s target).1.failing =
      match a.dump target.1 with
      | .ok _ => s.failing.erase (.dump target.1)
      | .error _ => insert (.dump target.1) s.failing := by
  obtain ⟨pane, info⟩ := target
  have hcase := scrapeCase lib s nowMs a.dump pane info
  have hframe := fun screen => @failing_bindScrape { s with failing := s.failing.erase (.dump pane) }
    nowMs pane info screen
  generalize scrapePane lib a.dump nowMs s (pane, info) = r at hcase
  cases hcase with
  | failed hd =>
    rw [hd]
    rfl
  | @unbound screen _ _ hd hb =>
    have hfailing := (hframe screen).1
    rw [hb] at hfailing
    rw [hd]
    exact hfailing
  | @observed screen _ _ _ hd hb =>
    have hfailing := (hframe screen).1
    rw [hb] at hfailing
    rw [hd]
    exact hfailing

/-- A scrape that is answered with a failure notes it. -/
theorem failing_targets {targets : List (PaneRef × PaneInfo)} {pane : PaneRef} {e : String}
    (hd : a.dump pane = .error e)
    (h : .dump pane ∈ s.failing ∨ ∃ target ∈ targets, target.1 = pane) :
    .dump pane ∈ (Machine.run (scrapePane lib a.dump nowMs) s targets).failing := by
  induction targets generalizing s with
  | nil => simpa using h
  | cons target targets ih =>
    refine ih ?_
    simp only [failing_scrapePane]
    rcases h with h | ⟨x, hx, hp⟩
    · left
      cases ht : a.dump target.1 with
      | error e' => exact Finset.mem_insert_of_mem h
      | ok screen =>
        refine Finset.mem_erase.mpr ⟨?_, h⟩
        rintro ⟨⟩
        cases hd.symm.trans ht
    · rcases List.mem_cons.mp hx with rfl | hx
      · left
        rw [hp, hd]
        exact Finset.mem_insert_self _ _
      · exact .inr ⟨x, hx, hp⟩

/-- A tick reports failures that were owed. -/
theorem pays_tick (ha : a.Idle) : Pays a s (s.tick lib nowMs a) :=
  (((pays_runCleanup (s := s)).trans (pays_drainSpool ha)).trans pays_pollIfDue).trans
    pays_scrapeIfDue

end Server

end MultiAi
