import MultiAi.Library.Episodes
import MultiAi.Silence.Ledger

/-! # Periodic failures of a probe server

A server tries to clean the spool, to read it, to list the sessions and the panes of each,
and to dump the screens. It reports a failure when it starts, and not again before the same
attempt succeeds or its session or pane is missing from a poll.
-/

namespace MultiAi

open Std Machine Episodes

/-- An error that says what a periodic attempt failed with. -/
def ProbeMsg.isFailure : ProbeMsg → Bool
  | .error code _ => code ≠ "spool_bad_line"
  | _ => false

def failures (out : List ProbeMsg) : List ProbeMsg := out.filter (·.isFailure)

/-- The scopes whose session or pane is missing from a poll. A session that has exited has
no panes to list; a list that was not answered misses no pane. -/
def TickAnswers.missing (a : TickAnswers) (sessions : List SessionInfo) : Set (Option Scope)
  | some (.panes name) => ¬ sessionLive sessions name
  | some (.dump pane) => ¬ sessionLive sessions pane.session ∨
      ∃ ps, a.panes pane.session = .ok ps ∧ ∀ q ∈ ps, q.id ≠ pane.paneId
  | _ => False

/-- An attempt, and the failures among what it tells. -/
def TickAnswers.noteOf (a : TickAnswers) (x : Option Scope) (out : List ProbeMsg) :
    Note (Option Scope) ProbeMsg :=
  .tried x (a.failure x) (failures out)

namespace Server

def cleanupNotes (s : Server) (nowMs : ℕ) (a : TickAnswers) : List (Note (Option Scope) ProbeMsg) :=
  if due s.lastCleanup cleanupEveryMs nowMs then
    [a.noteOf (some .cleanup) (s.runCleanup nowMs a).2]
  else []

def readNotes (s : Server) (a : TickAnswers) : List (Note (Option Scope) ProbeMsg) :=
  [a.noteOf none (s.drainSpool a).2]

def notedSession (a : TickAnswers) (old : PaneLists) (acc : Polling) (session : SessionInfo) :
    Polling × List (Note (Option Scope) ProbeMsg) :=
  ((pollSession old a.panes acc session).1,
    [a.noteOf (some (.panes session.name)) (pollSession old a.panes acc session).2])

def pollNotes (s : Server) (nowMs : ℕ) (a : TickAnswers) : List (Note (Option Scope) ProbeMsg) :=
  if s.zellij && due s.lastPanePoll s.intervals.panePollMs nowMs then
    match a.sessions with
    | .error _ => [a.noteOf (some .sessions) (s.pollPanes a).2]
    | .ok sessions =>
      a.noteOf (some .sessions) [] ::
        (outputs (notedSession a s.panes) ⟨s.failing.erase .sessions, ∅⟩ (liveSessions sessions) ++
          [.left (a.missing sessions)])
  else []

def notedPane (lib : ScrapeLib) (nowMs : ℕ) (a : TickAnswers) (s : Server)
    (target : PaneRef × PaneInfo) : Server × List (Note (Option Scope) ProbeMsg) :=
  ((scrapePane lib a.dump nowMs s target).1,
    [a.noteOf (some (.dump target.1)) (scrapePane lib a.dump nowMs s target).2])

def scrapeNotes (lib : ScrapeLib) (s : Server) (nowMs : ℕ) (a : TickAnswers) :
    List (Note (Option Scope) ProbeMsg) :=
  if s.zellij && due s.lastScrape s.intervals.scrapeMs nowMs then
    outputs (notedPane lib nowMs a) { s with lastScrape := some nowMs } s.targets
  else []

/-- The attempts of a tick in their order, and after a poll what was missing from it. -/
def notes (lib : ScrapeLib) (s : Server) (nowMs : ℕ) (a : TickAnswers) :
    List (Note (Option Scope) ProbeMsg) :=
  s.cleanupNotes nowMs a ++ (s.runCleanup nowMs a).1.readNotes a ++
    (s.drained nowMs a).pollNotes nowMs a ++ (s.polled nowMs a).scrapeNotes lib nowMs a

/-- A step with its notes for its outputs. -/
def noted (lib : ScrapeLib) (s : Server) (i : Input) :
    Server × List (Note (Option Scope) ProbeMsg) :=
  ((s.step lib i).1,
    match i with
    | .tick nowMs a => s.notes lib nowMs a
    | .app .. => [])

variable {lib : ScrapeLib} {s s' : Server} {nowMs : ℕ} {a : TickAnswers}

section Told

theorem failures_append (out out' : List ProbeMsg) :
    failures (out ++ out') = failures out ++ failures out' := List.filter_append ..

theorem failures_outputs {σ ι : Type} {step : σ → ι → σ × List ProbeMsg}
    {noted : σ → ι → σ × List (Note (Option Scope) ProbeMsg)}
    (h : ∀ s i, (noted s i).1 = (step s i).1 ∧
      (noted s i).2.flatMap Note.told = failures (step s i).2) (s : σ) (is : List ι) :
    (outputs noted s is).flatMap Note.told = failures (outputs step s is) := by
  induction is generalizing s with
  | nil => rfl
  | cons i is ih =>
    rw [outputs_cons, outputs_cons, List.flatMap_append, failures_append, (h s i).2, ih, (h s i).1]

theorem failures_news (sessions : List SessionInfo) (old : Option (List SessionInfo)) :
    failures (if old = some sessions then [] else [.sessions sessions]) = [] := by
  split_ifs <;> rfl

/-- The failures that a tick tells are those that its notes tell. -/
theorem failures_tick (lib : ScrapeLib) (s : Server) (nowMs : ℕ) (a : TickAnswers) :
    failures (s.tick lib nowMs a).2 = (s.notes lib nowMs a).flatMap Note.told := by
  have hclean : (s.cleanupNotes nowMs a).flatMap Note.told = failures (s.runCleanup nowMs a).2 := by
    unfold cleanupNotes runCleanup
    split_ifs
    · exact List.append_nil _
    · rfl
  have hpoll : ∀ s : Server, (s.pollNotes nowMs a).flatMap Note.told =
      failures (s.pollIfDue nowMs a).2 := by
    intro s
    unfold pollNotes pollIfDue
    split_ifs
    · cases hs : a.sessions with
      | error e =>
        simp only [pollPanes, hs]
        exact List.append_nil _
      | ok sessions =>
        have hlists := @failures_outputs _ _ (pollSession s.panes a.panes)
          (notedSession a s.panes) (fun _ _ => ⟨rfl, List.append_nil _⟩)
          ⟨s.failing.erase .sessions, ∅⟩ (liveSessions sessions)
        simp only [pollPanes, hs, List.flatMap_cons, List.flatMap_append, hlists, failures_append,
          failures_news]
        exact List.append_nil _
    · rfl
  have hscrape : ∀ s : Server, (s.scrapeNotes lib nowMs a).flatMap Note.told =
      failures (s.scrapeIfDue lib nowMs a).2 := by
    intro s
    unfold scrapeNotes scrapeIfDue
    split_ifs
    · exact failures_outputs (fun _ _ => ⟨rfl, List.append_nil _⟩) _ _
    · rfl
  have hread : ((s.runCleanup nowMs a).1.readNotes a).flatMap Note.told =
      failures ((s.runCleanup nowMs a).1.drainSpool a).2 := List.append_nil _
  simp only [notes, List.flatMap_append, hclean, hread, hpoll, hscrape, tick_snd, failures_append]

end Told

section Tracks

open Classical in
/-- A scope that is reported. -/
theorem tracks_report {scope : Scope} {code e : String} (hc : (ProbeMsg.error code e).isFailure)
    (hf : a.failure (some scope) = some (.error code e)) :
    Tracks fails s [a.noteOf (some scope) (report s.failing scope (.error code e)).2]
      { s with failing := (report s.failing scope (.error code e)).1 } := by
  refine Tracks.tried ?_ ?_ ?_
  · rintro (_ | other) hne
    · exact Iff.rfl
    · simp only [fails, report, Finset.mem_insert, or_iff_right_iff_imp]
      rintro rfl
      exact absurd rfl hne
  · simp [fails, report, hf]
  · simp only [fails, report, hf, failures]
    split_ifs
    · rfl
    · simp [hc]

/-- A scope that succeeds. -/
theorem tracks_erase {scope : Scope} {out : List ProbeMsg} (hout : failures out = [])
    (hf : a.failure (some scope) = none) (hfail : s'.failing = s.failing.erase scope)
    (hspool : s'.spoolFailing = s.spoolFailing) :
    Tracks fails s [a.noteOf (some scope) out] s' := by
  classical
  refine Tracks.tried ?_ ?_ ?_
  · rintro (_ | other) hne
    · simp only [fails, hspool]
    · simp only [fails, hfail, Finset.mem_erase, and_iff_right_iff_imp]
      rintro - rfl
      exact hne rfl
  · simp [fails, hfail, hf]
  · simp [hout, hf]

theorem tracks_runCleanup : Tracks fails s (s.cleanupNotes nowMs a) (s.runCleanup nowMs a).1 := by
  unfold cleanupNotes runCleanup
  split_ifs
  · cases hc : a.cleanup with
    | ok n => exact tracks_erase rfl (by simp [TickAnswers.failure, hc, errorOf]) rfl rfl
    | error e =>
      exact tracks_report (s := { s with lastCleanup := some nowMs }) (by simp [ProbeMsg.isFailure])
        (by simp [TickAnswers.failure, hc, errorOf])
  · exact .frame fun _ => Iff.rfl

theorem failing_drainRecords (records : List (ℕ × SpoolRecord)) :
    (Machine.run drainRecord s records).failing = s.failing ∧
      (Machine.run drainRecord s records).spoolFailing = s.spoolFailing := by
  have hstep : ∀ (s : Server) (entry : ℕ × SpoolRecord),
      ((drainRecord s entry).1.failing, (drainRecord s entry).1.spoolFailing) =
        (s.failing, s.spoolFailing) := by
    intro s entry
    simp only [drainRecord, bindRecord]
    split_ifs <;> rfl
  exact Prod.mk.inj (run_frame (fun s : Server => (s.failing, s.spoolFailing)) hstep s records)

theorem failures_drainRecords (records : List (ℕ × SpoolRecord)) :
    failures (outputs drainRecord s records) = [] := by
  refine List.filter_eq_nil_iff.mpr (outputs_forall (fun s entry msg hm => ?_) _ _)
  obtain ⟨ev, -, rfl⟩ := Option.map_eq_some_iff.mp (Option.mem_toList.mp hm)
  simp [ProbeMsg.isFailure]

theorem tracks_drainSpool : Tracks fails s (s.readNotes a) (s.drainSpool a).1 := by
  classical
  unfold readNotes drainSpool
  cases hr : a.read with
  | error e =>
    refine Tracks.tried ?_ ?_ ?_
    · rintro (_ | scope) hne
      · exact absurd rfl hne
      · exact Iff.rfl
    · simp [fails, TickAnswers.failure, hr, errorOf]
    · simp only [fails, TickAnswers.failure, hr, errorOf]
      split_ifs <;> rfl
  | ok r =>
    obtain ⟨hfailing, hspool⟩ := @failing_drainRecords
      { s with spoolFailing := false, readCursor := r.endCursor } r.records
    refine Tracks.tried ?_ ?_ ?_
    · rintro (_ | scope) hne
      · exact absurd rfl hne
      · simp only [fails, hfailing]
    · simp [fails, hspool, TickAnswers.failure, hr, errorOf]
    · have hbad : ∀ text, failures (if 0 < r.badLines then [.error "spool_bad_line" text]
          else []) = [] := by
        intro text
        split_ifs <;> rfl
      simp only [failures_append, failures_drainRecords, hbad, TickAnswers.failure, hr, errorOf]
      split_ifs <;> rfl

theorem tracks_pollSession {old : PaneLists} {acc : Polling} {session : SessionInfo} :
    Tracks fails { s with failing := acc.failing } (notedSession a old acc session).2
      { s with failing := (notedSession a old acc session).1.failing } := by
  simp only [notedSession, pollSession]
  cases hp : a.panes session.name with
  | ok ps =>
    refine tracks_erase ?_ (by simp [TickAnswers.failure, hp, errorOf]) rfl rfl
    simp only
    split_ifs <;> rfl
  | error e =>
    exact tracks_report (s := { s with failing := acc.failing }) (by simp [ProbeMsg.isFailure])
      (by simp [TickAnswers.failure, hp, errorOf])

/-- The screens that are noted as failing are those of panes in the lists. -/
def Placed (s : Server) : Prop := ∀ pane, .dump pane ∈ s.failing → paneExists s.panes pane

theorem Placed.congr (h : Placed s)
    (hf : ∀ pane, .dump pane ∈ s'.failing → .dump pane ∈ s.failing) (hp : s'.panes = s.panes) : Placed s' := by
  intro pane hm
  rw [hp]
  exact h pane (hf pane hm)

/-- A scope leaves with its session or pane. -/
theorem scopeStays_iff {sessions : List SessionInfo} {fresh : PaneLists} {scope : Scope}
    (hfresh : ∀ name, fresh[name]? = s.pollList a sessions name)
    (hplaced : ∀ pane, scope = .dump pane → paneExists s.panes pane) :
    scopeStays (liveSessions sessions) fresh scope ↔ some scope ∉ a.missing sessions := by
  cases scope with
  | sessions => exact iff_of_true rfl id
  | cleanup => exact iff_of_true rfl id
  | panes name =>
    rw [scopeStays, any_liveSessions]
    exact not_not.symm
  | dump pane =>
    have hold := hplaced pane rfl
    rw [scopeStays, paneExists, hfresh, pollList]
    rw [paneExists] at hold
    change _ ↔ ¬ (_ ∨ _)
    by_cases hlive : sessionLive sessions pane.session
    · cases hp : a.panes pane.session with
      | ok ps => simp [hlive]
      | error e => simpa [hlive, paneList] using hold
    · simp [hlive]

theorem tracks_pollIfDue (h : Placed s) :
    Tracks fails s (s.pollNotes nowMs a) (s.pollIfDue nowMs a).1 := by
  unfold pollNotes pollIfDue
  split_ifs
  · cases hs : a.sessions with
    | error e =>
      simp only [pollPanes, hs]
      exact tracks_report (s := { s with lastPanePoll := some nowMs }) (by simp [ProbeMsg.isFailure])
        (by simp [TickAnswers.failure, hs, errorOf])
    | ok sessions =>
      have hfresh := fresh_pollSessions (s := s) (a := a) (s.failing.erase .sessions) sessions
      have hother := fun scope h => @failing_pollSessions s.panes a.panes
        ⟨s.failing.erase .sessions, ∅⟩ (liveSessions sessions) scope h
      have hlist := (Tracks.run (P := fun _ => True) (Q := fun _ => True)
        (fun acc session _ _ => ⟨trivial, @tracks_pollSession s a s.panes acc session⟩)
        (s := ⟨s.failing.erase .sessions, ∅⟩) (liveSessions sessions) trivial
        fun _ _ => trivial).2
      have hfirst : Tracks fails s [a.noteOf (some .sessions) []]
          { s with failing := s.failing.erase .sessions } :=
        tracks_erase rfl (by simp [TickAnswers.failure, hs, errorOf]) rfl rfl
      refine hfirst.trans ((Tracks.view (fun acc : Polling => { s with failing := acc.failing })
        hlist).trans (Tracks.left ?_))
      simp only [pollPanes, hs]
      rintro (_ | scope)
      · exact (and_iff_left id).symm
      · have hrun : run (notedSession a s.panes) ⟨s.failing.erase .sessions, ∅⟩
          (liveSessions sessions) = run (pollSession s.panes a.panes)
            ⟨s.failing.erase .sessions, ∅⟩ (liveSessions sessions) := rfl
        rw [hrun]
        simp only [fails, Finset.mem_filter]
        refine and_congr_right fun hm => scopeStays_iff hfresh ?_
        rintro pane rfl
        exact h pane (Finset.mem_of_mem_erase ((hother (.dump pane) (by simp)).mp hm))
  · exact .frame fun _ => Iff.rfl

theorem Placed.runCleanup (h : Placed s) : Placed (s.runCleanup nowMs a).1 := by
  unfold Server.runCleanup
  split_ifs
  · cases a.cleanup with
    | ok n => exact h.congr (fun _ => Finset.mem_of_mem_erase) rfl
    | error e =>
      refine h.congr (fun pane hm => ?_) rfl
      exact (Finset.mem_insert.mp hm).resolve_left nofun
  · exact h

theorem Placed.drainSpool (h : Placed s) : Placed (s.drainSpool a).1 := by
  refine h.congr (fun pane hm => ?_) (congrArg Known.panes (known_drainSpool s a))
  unfold Server.drainSpool at hm
  cases hr : a.read with
  | error e =>
    rw [hr] at hm
    exact hm
  | ok r =>
    rw [hr] at hm
    rwa [(failing_drainRecords _).1] at hm

theorem Placed.pollIfDue (h : Placed s) : Placed (s.pollIfDue nowMs a).1 := by
  unfold Server.pollIfDue
  split_ifs
  · unfold pollPanes
    cases hs : a.sessions with
    | error e =>
      refine h.congr (fun pane hm => ?_) rfl
      exact (Finset.mem_insert.mp hm).resolve_left nofun
    | ok sessions => exact fun pane hm => (Finset.mem_filter.mp hm).2
  · exact h

theorem failures_events {out : List ProbeMsg} {pane : PaneRef}
    (h : ∀ msg ∈ out, ∃ agent state, msg = scrapeEvent pane agent state nowMs) :
    failures out = [] := by
  refine List.filter_eq_nil_iff.mpr fun msg hm => ?_
  obtain ⟨agent, state, rfl⟩ := h msg hm
  exact Bool.false_ne_true

theorem tracks_scrapePane (target : PaneRef × PaneInfo) :
    Tracks fails s (notedPane lib nowMs a s target).2 (notedPane lib nowMs a s target).1 := by
  obtain ⟨pane, info⟩ := target
  have hframe := fun screen => @failing_bindScrape { s with failing := s.failing.erase (.dump pane) }
    nowMs pane info screen
  have htells := fun screen => bindScrape_tells
    { s with failing := s.failing.erase (.dump pane) } nowMs pane info screen
  have hcase := scrapeCase lib s nowMs a.dump pane info
  simp only [notedPane]
  generalize scrapePane lib a.dump nowMs s (pane, info) = r at hcase
  cases hcase with
  | failed hd =>
    exact tracks_report (by simp [ProbeMsg.isFailure]) (by simp [TickAnswers.failure, hd, errorOf])
  | @unbound screen _ _ hd hb =>
    have hf := hframe screen
    have ht := htells screen
    rw [hb] at hf ht
    exact tracks_erase (failures_events ht) (by simp [TickAnswers.failure, hd, errorOf]) hf.1 hf.2
  | @observed screen agent s' out hd hb =>
    have hf := hframe screen
    have ht := htells screen
    rw [hb] at hf ht
    refine tracks_erase ?_ (by simp [TickAnswers.failure, hd, errorOf]) hf.1 hf.2
    refine @failures_events nowMs _ pane fun msg hm => ?_
    rcases List.mem_append.mp hm with hm | hm
    · exact ht msg hm
    · obtain ⟨state, -, rfl⟩ := Option.map_eq_some_iff.mp (Option.mem_toList.mp hm)
      exact ⟨agent, state, rfl⟩

theorem Placed.scrapePane {target : PaneRef × PaneInfo} (h : Placed s)
    (ht : paneExists s.panes target.1) :
    Placed (Server.scrapePane lib a.dump nowMs s target).1 := by
  have hpanes : (Server.scrapePane lib a.dump nowMs s target).1.panes = s.panes :=
    congrArg Known.panes (known_scrapePane lib s nowMs a.dump target)
  intro pane hm
  rw [hpanes]
  rw [failing_scrapePane] at hm
  cases hd : a.dump target.1 with
  | ok screen =>
    rw [hd] at hm
    exact h pane (Finset.mem_of_mem_erase hm)
  | error e =>
    rw [hd] at hm
    rcases Finset.mem_insert.mp hm with heq | hm
    · cases heq
      exact ht
    · exact h pane hm

/-- A scrape dumps the panes of the lists, which it does not change. -/
theorem tracks_scrapeIfDue (h : Placed s) : Placed (s.scrapeIfDue lib nowMs a).1 ∧
    Tracks fails s (s.scrapeNotes lib nowMs a) (s.scrapeIfDue lib nowMs a).1 := by
  unfold scrapeNotes scrapeIfDue
  split_ifs
  · have hstep : ∀ (s' : Server) (target : PaneRef × PaneInfo),
        (s'.known = { s with lastScrape := some nowMs }.known ∧ Placed s') →
        paneExists s.panes target.1 →
        ((notedPane lib nowMs a s' target).1.known = { s with lastScrape := some nowMs }.known ∧
          Placed (notedPane lib nowMs a s' target).1) ∧
        Tracks fails s' (notedPane lib nowMs a s' target).2 (notedPane lib nowMs a s' target).1 := by
      rintro s' target ⟨hknown, hplaced⟩ ht
      have hpanes : s'.panes = s.panes := congrArg Known.panes hknown
      exact ⟨⟨(known_scrapePane lib s' nowMs a.dump target).trans hknown,
        hplaced.scrapePane (hpanes ▸ ht)⟩, tracks_scrapePane target⟩
    have hrun := Tracks.run
      (P := fun s' => s'.known = { s with lastScrape := some nowMs }.known ∧ Placed s')
      (Q := fun target : PaneRef × PaneInfo => paneExists s.panes target.1) hstep
      (s := { s with lastScrape := some nowMs }) s.targets ⟨rfl, h⟩
      fun target ht => paneExists_of_holdsOpen (holdsOpen_target ht)
    exact ⟨hrun.1.2, hrun.2⟩
  · exact ⟨h, .frame fun _ => Iff.rfl⟩

theorem Placed.drained (h : Placed s) : Placed (s.drained nowMs a) := h.runCleanup.drainSpool

theorem Placed.polled (h : Placed s) : Placed (s.polled nowMs a) := h.drained.pollIfDue

theorem tracks_tick (h : Placed s) : Placed (s.tick lib nowMs a).1 ∧
    Tracks fails s (s.notes lib nowMs a) (s.tick lib nowMs a).1 := by
  have hpolled : Placed (s.polled nowMs a) := h.polled
  obtain ⟨hplaced, hscrape⟩ := @tracks_scrapeIfDue lib _ nowMs a hpolled
  exact ⟨hplaced, ((tracks_runCleanup.trans tracks_drainSpool).trans
    (tracks_pollIfDue h.drained)).trans hscrape⟩

theorem tracks_noted (i : Input) (h : Placed s) :
    Placed (s.noted lib i).1 ∧ Tracks fails s (s.noted lib i).2 (s.noted lib i).1 := by
  cases i with
  | tick nowMs a => exact tracks_tick h
  | app b msg =>
    have hframe : (s.handle lib b msg).1.failing = s.failing ∧
        (s.handle lib b msg).1.spoolFailing = s.spoolFailing ∧
        (s.handle lib b msg).1.panes = s.panes := by
      cases msg with
      | setRules rules =>
        simp only [handle]
        split <;> exact ⟨rfl, rfl, rfl⟩
      | _ => exact ⟨rfl, rfl, rfl⟩
    refine ⟨h.congr (fun _ hm => hframe.1 ▸ hm) hframe.2.2, .frame ?_⟩
    rintro (_ | scope)
    · exact Iff.of_eq (congrArg (· = true) hframe.2.1)
    · exact Iff.of_eq (congrArg (scope ∈ ·) hframe.1)

end Tracks

/-- The journal of a server from its start. -/
def journal (lib : ScrapeLib) (zellij : Bool) (ack : ℕ) (rules : CompiledRules)
    (inputs : List Input) : List (Note (Option Scope) ProbeMsg) :=
  outputs (noted lib) (.new zellij ack rules) inputs

theorem run_noted (lib : ScrapeLib) (s : Server) (inputs : List Input) :
    run (noted lib) s inputs = run (step lib) s inputs := rfl

theorem placed_new (zellij : Bool) (ack : ℕ) (rules : CompiledRules) :
    Placed (.new zellij ack rules) := fun _ hm => absurd hm (Finset.notMem_empty _)

/-- The journal is honest, and its ongoing failures are those that are noted as failing. -/
theorem journal_honest (lib : ScrapeLib) (zellij : Bool) (ack : ℕ) (rules : CompiledRules)
    (inputs : List Input) : Honest (journal lib zellij ack rules inputs) ∧
      ∀ x, (run (step lib) (.new zellij ack rules) inputs).fails x ↔
        Ongoing (journal lib zellij ack rules inputs) x := by
  have htracks : Tracks fails (.new zellij ack rules) (journal lib zellij ack rules inputs)
      (run (noted lib) (.new zellij ack rules) inputs) :=
    (Tracks.run (P := Placed) (Q := fun _ => True) (fun _ i h _ => tracks_noted i h) inputs
      (placed_new zellij ack rules) fun _ _ => trivial).2
  have hnone : ∀ x, (Server.new zellij ack rules).fails x ↔
      Ongoing ([] : List (Note (Option Scope) ProbeMsg)) x := by
    refine fun x => iff_of_false ?_ (not_ongoing fun _ hn => (List.not_mem_nil hn).elim)
    cases x with
    | none => exact Bool.false_ne_true
    | some scope => exact Finset.notMem_empty scope
  have hrun := htracks [] Honest.nil hnone
  rw [run_noted] at hrun
  exact hrun

open Classical in
/-- A periodic failure is reported exactly when it starts. The failures a tick tells are those
of its attempts; an attempt tells its failure if it starts, by `Starts`, and nothing
otherwise; between two reports of a scope it succeeds or is missing; every failure that is not
reported was reported before, at its start; and what is noted as failing failed last. -/
theorem failure_told_when_it_starts (lib : ScrapeLib) (zellij : Bool) (ack : ℕ)
    (rules : CompiledRules) (inputs : List Input) :
    (∀ s nowMs a, failures (tick lib s nowMs a).2 = (notes lib s nowMs a).flatMap Note.told) ∧
    (∀ pre x fault told post,
      journal lib zellij ack rules inputs = pre ++ .tried x fault told :: post →
        told = if Starts pre x then fault.toList else []) ∧
    (∀ pre n mid n' post x,
      journal lib zellij ack rules inputs = pre ++ n :: (mid ++ n' :: post) →
        n.reports x → n'.reports x → ∃ note ∈ mid, note.succeeds x ∨ note.lacks x) ∧
    (∀ pre x e told post,
      journal lib zellij ack rules inputs = pre ++ .tried x (some e) told :: post →
        told = [e] ∨ ∃ early n since, pre = early ++ n :: since ∧ n.reports x ∧
          ∀ note ∈ since, ¬ note.succeeds x ∧ ¬ note.lacks x) ∧
    ∀ x, (run (step lib) (.new zellij ack rules) inputs).fails x →
      ∃ early e told since,
        journal lib zellij ack rules inputs = early ++ .tried x (some e) told :: since ∧
        ∀ note ∈ since, ¬ note.tries x ∧ ¬ note.lacks x := by
  obtain ⟨hhonest, hfails⟩ := journal_honest lib zellij ack rules inputs
  refine ⟨failures_tick lib, ?_, ?_, ?_, fun x => (hfails x).mp⟩
  · intro pre x fault told post h
    exact Honest.told_eq (h ▸ hhonest)
  · intro pre n mid n' post x h
    exact Honest.between (h ▸ hhonest)
  · intro pre x e told post h
    exact Honest.reported (h ▸ hhonest)

end Server

end MultiAi
