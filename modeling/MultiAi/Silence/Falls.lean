import MultiAi.Silence.Run

/-! # Silence

When a poll and a clean-up were tried, and each pane was dumped twice, the stable time of
its agent apart, with no message after the first dump, no later tick tells anything.
-/

namespace MultiAi

open Std Machine Server

/-- An input does not dump a pane later than `t`. -/
def PaneInput.By (t : ℕ) : PaneInput → Prop
  | .dump _ _ _ nowMs => nowMs ≤ t
  | _ => True

namespace PaneMemory

variable {lib : ScrapeLib} {t : ℕ} {m m' : PaneMemory}

/-- The screen of a pane has been the same since `t` or longer. -/
def Since (t : ℕ) (m : PaneMemory) : Prop := ∀ h, m.history = some h → h.stableSinceMs ≤ t

theorem since_observe {rules : CompiledRules} {agent screen : String}
    {history : Option PaneScrape} {nowMs : ℕ} (hnow : nowMs ≤ t)
    (hsince : ∀ h, history = some h → h.stableSinceMs ≤ t) :
    ∀ h, (observe lib rules agent history screen nowMs).1 = some h → h.stableSinceMs ≤ t := by
  have hcase := observeCase lib rules agent history screen nowMs
  generalize observe lib rules agent history screen nowMs = r at hcase
  intro h hh
  cases hcase with
  | unruled => exact hsince h hh
  | first | changed =>
    obtain rfl := Option.some.inj hh
    exact hnow
  | young _ hp | settled _ hp | idle _ hp =>
    have hle := hsince _ hp
    obtain rfl := Option.some.inj hh
    exact hle

theorem since_step {i : PaneInput} (hi : i.By t) (hm : m.Since t) : (m.step lib i).1.Since t := by
  cases i with
  | hook agent exited =>
    cases exited with
    | true => exact fun h hh => by cases hh
    | false => exact hm
  | listed => exact hm
  | unlisted => exact fun h hh => by cases hh
  | newRules => exact fun h hh => by cases hh
  | dump rules info screen nowMs =>
    have hcase := dumpCase lib m rules info screen nowMs
    generalize m.step lib (.dump rules info screen nowMs) = r at hcase
    cases hcase with
    | hook | kept | appeared => exact since_observe hi hm
    | left => exact fun h hh => by cases hh
    | _ => exact hm

theorem since_logs {h : List (PaneInput ⊕ Scraped)} (hl : Logs lib m h m')
    (hin : ∀ i, .inl i ∈ h → i.By t) (hm : m.Since t) : m'.Since t := by
  induction hl with
  | nil => exact hm
  | snoc i _ _ ih =>
    exact since_step (hin i (by simp)) (ih fun j hj => hin j (by simp [hj]))

end PaneMemory

namespace Silence

variable {lib : ScrapeLib} {a : TickAnswers} {s : Server} {nowMs : ℕ} {p : PaneRef}
  {lists : PaneLists} {ts : List ℕ}

section Aged

theorem scrapes_polled : (s.polled nowMs a).scrapes nowMs = s.scrapes nowMs := by
  obtain ⟨hz, -, hi, hl⟩ := settings_polled s nowMs a
  rw [scrapes, scrapes, hz, hi, hl]

theorem lastScrape_again : (s.again lib a nowMs).1.lastScrape =
    if s.scrapes nowMs then some nowMs else s.lastScrape := by
  have hl := (settings_polled s nowMs a).2.2.2
  rw [again, tick_fst, scrapeIfDue, ← scrapes, scrapes_polled]
  split_ifs
  · exact congrArg Known.lastScrape (known_scrapePanes lib (s.scraping nowMs a) nowMs a)
  · exact hl

/-- The dumps of a tick are made at its time, and when it scrapes. -/
theorem story_by {i : PaneInput} {t : ℕ} (hi : .inl i ∈ s.story lib p (.tick nowMs a))
    (ht : s.scrapes nowMs → nowMs ≤ t) : i.By t := by
  simp only [story, List.mem_append] at hi
  rcases hi with (hi | hi) | hi
  · obtain ⟨j, hj, hij⟩ := List.mem_map.mp hi
    obtain rfl := Sum.inl.inj hij
    unfold hookInputs at hj
    split_ifs at hj
    · split at hj
      · obtain ⟨entry, -, hj⟩ := List.mem_flatMap.mp hj
        unfold hookInput at hj
        split_ifs at hj
        · obtain rfl := List.mem_singleton.mp hj
          trivial
        · cases hj
      · cases hj
    · cases hj
  · obtain ⟨j, hj, hij⟩ := List.mem_map.mp hi
    obtain rfl := Sum.inl.inj hij
    unfold pollInputs at hj
    split at hj
    · cases hj
    · split_ifs at hj
      · obtain rfl := List.mem_singleton.mp hj
        trivial
      · obtain rfl := List.mem_singleton.mp hj
        trivial
  · rw [← scrapes, scrapes_polled] at hi
    split_ifs at hi with hs
    · obtain ⟨s', target, -, hi⟩ := exists_of_mem_outputs hi
      simp only [visit, List.mem_append] at hi
      rcases hi with hi | hi
      · split_ifs at hi
        · split at hi
          · obtain rfl := Sum.inl.inj (List.mem_singleton.mp hi)
            exact ht hs
          · cases hi
        · cases hi
      · obtain ⟨_, -, hij⟩ := List.mem_map.mp hi
        cases hij
    · cases hi

/-- No screen has been the same for longer than the last scrape, and scrapes are some time
apart. -/
structure Aged (s : Server) : Prop where
  apart : 0 < s.intervals.scrapeMs
  since : ∀ t, (∀ last, s.lastScrape = some last → last ≤ t) → ∀ p, (s.memory p).Since t

theorem aged_new (zellij : Bool) (ack : ℕ) (rules : CompiledRules) : Aged (.new zellij ack rules) where
  apart := by simp [Server.new, Intervals.default]
  since t _ p h hh := by simp [memory, Server.new, ScrapeTracker.new, ScrapeTracker.get] at hh

theorem Aged.before (h : Aged s) (hs : s.scrapes nowMs) : (s.memory p).Since nowMs := by
  refine h.since nowMs (fun last hl => ?_) p
  have hdue := (Bool.and_eq_true _ _ ▸ hs).2
  have hapart := h.apart
  simp only [due, hl, Option.all_some, decide_eq_true_eq] at hdue
  omega

theorem Aged.tick (h : Aged s) (hb : Settling.Backed s) : Aged (s.tick lib nowMs a).1 where
  apart := by
    rw [(settings_tick lib s nowMs a).2.2]
    exact h.apart
  since t ht p := by
    have hlast : (s.tick lib nowMs a).1.lastScrape =
        if s.scrapes nowMs then some nowMs else s.lastScrape := lastScrape_again
    rw [hlast] at ht
    by_cases hs : s.scrapes nowMs
    · have hle : nowMs ≤ t := ht nowMs (if_pos hs)
      exact PaneMemory.since_logs (logs_tick hb) (fun i hi => story_by hi fun _ => hle)
        fun x hx => (h.before hs x hx).trans hle
    · rw [if_neg hs] at ht
      exact PaneMemory.since_logs (logs_tick hb) (fun i hi => story_by hi fun hs' => absurd hs' hs)
        (h.since t ht p)

theorem Aged.handle (h : Aged s) (b : HandleAnswers) (msg : AppMsg) :
    Aged (s.handle lib b msg).1 := by
  cases msg with
  | setInterval => exact ⟨Nat.lt_of_lt_of_le (by decide) (le_max_right _ minIntervalMs), h.since⟩
  | setRules rules =>
    simp only [Server.handle]
    split
    · exact ⟨h.apart, fun t _ p x hx => by
        simp [memory, ScrapeTracker.reset, ScrapeTracker.new, ScrapeTracker.get] at hx⟩
    · exact h
  | _ => exact h

/-- Every server that was started is so. -/
theorem aged_run (zellij : Bool) (ack : ℕ) (rules : CompiledRules) (is : List Input) :
    Aged (run (step lib) (.new zellij ack rules) is) ∧
      Settling.Backed (run (step lib) (.new zellij ack rules) is) := by
  refine run_preserves (P := fun s => Aged s ∧ Settling.Backed s) ?_
    ⟨aged_new zellij ack rules, Settling.backed_new zellij ack rules⟩ is
  rintro s i ⟨h, hb⟩
  refine ⟨?_, backed_step hb i⟩
  cases i with
  | tick nowMs a => exact h.tick hb
  | app b msg => exact h.handle b msg

end Aged

section Told

/-- A poll is due. -/
def polling (s : Server) (nowMs : ℕ) : Prop :=
  s.zellij && due s.lastPanePoll s.intervals.panePollMs nowMs

/-- A clean-up is due. -/
def cleaning (s : Server) (nowMs : ℕ) : Prop := due s.lastCleanup cleanupEveryMs nowMs

instance : Decidable (polling s nowMs) := inferInstanceAs (Decidable (_ = true))

instance : Decidable (cleaning s nowMs) := inferInstanceAs (Decidable (_ = true))

theorem owed_subset {s' : Server} {out : List ProbeMsg} (h : Pays a s (s', out)) :
    owed a s' ⊆ owed a s := by
  obtain ⟨scopes, h⟩ := h
  exact h.subset

theorem owed_again (ha : a.Idle) : owed a (s.again lib a nowMs).1 ⊆ owed a s :=
  owed_subset (pays_tick ha)

/-- After a tick the spool has told its failure. -/
theorem spool_told : none ∉ owed a (s.again lib a nowMs).1 := by
  have hdrained : none ∉ owed a (s.drained nowMs a) := by
    rintro ⟨hf, hnot, -⟩
    cases hr : a.read with
    | ok r => simp [TickAnswers.failure, hr, errorOf] at hf
    | error e => simp [fails, drained, drainSpool, hr] at hnot
  have hpolled : owed a (s.polled nowMs a) ⊆ owed a (s.drained nowMs a) := owed_subset pays_pollIfDue
  have hscraped : owed a (s.again lib a nowMs).1 ⊆ owed a (s.polled nowMs a) :=
    owed_subset pays_scrapeIfDue
  exact fun h => hdrained (hpolled (hscraped h))

theorem cleanup_told (ha : a.Idle) (h : cleaning s nowMs) :
    some .cleanup ∉ owed a (s.again lib a nowMs).1 := by
  have hcleaned : some .cleanup ∉ owed a (s.runCleanup nowMs a).1 := by
    rintro ⟨hf, hnot, -⟩
    cases hc : a.cleanup with
    | ok n => simp [TickAnswers.failure, hc, errorOf] at hf
    | error e => simp [fails, runCleanup, show due s.lastCleanup cleanupEveryMs nowMs from h, hc,
        report] at hnot
  exact fun h => hcleaned (owed_subset (pays_drainSpool ha)
    (owed_subset pays_pollIfDue (owed_subset pays_scrapeIfDue h)))

/-- Everything about the lists was told. -/
structure ListsTold (a : TickAnswers) (s : Server) : Prop where
  sessionsOwed : some .sessions ∉ owed a s
  panesOwed : ∀ name, some (.panes name) ∉ owed a s
  sessions : sessionsLeft a s = 0
  panes : ∀ name, panesLeft a name s = 0
  fixed : Fixed a s

theorem ListsTold.again (ha : a.Idle) (h : ListsTold a s) : ListsTold a (s.again lib a nowMs).1 where
  sessionsOwed hx := h.sessionsOwed (owed_again ha hx)
  panesOwed name hx := h.panesOwed name (owed_again ha hx)
  sessions := by
    have hle := @sessions_left lib a s nowMs ha
    have hzero := h.sessions
    omega
  panes name := by
    have hle := @panes_left lib a s nowMs name ha
    have hzero := h.panes name
    omega
  fixed := h.fixed.again

theorem lists_told_pollPanes : ListsTold a (s.pollPanes a).1 := by
  cases hs : a.sessions with
  | error e =>
    have hfailing : .sessions ∈ (s.pollPanes a).1.failing := by
      simp only [pollPanes, hs]
      exact Finset.mem_insert_self _ _
    constructor
    · rintro ⟨-, hnot, -⟩
      exact hnot hfailing
    · rintro name ⟨-, -, -, sessions, hs', -⟩
      cases hs.symm.trans hs'
    · rw [sessionsLeft, hs]
      split <;> simp_all
    · intro name
      rw [panesLeft, hs]
      split <;> simp_all
    · intro _ sessions hs'
      cases hs.symm.trans hs'
  | ok sessions =>
    have hsessions : (s.pollPanes a).1.sessions = some sessions := by simp only [pollPanes, hs]
    have hlists : ∀ name, (s.pollPanes a).1.paneList name = s.pollList a sessions name := by
      intro name
      simp only [pollPanes, hs]
      exact fresh_pollSessions _ _ _
    constructor
    · rintro ⟨hf, -, -⟩
      simp [TickAnswers.failure, hs, errorOf] at hf
    · rintro name ⟨hf, hnot, -, sessions', hs', hl⟩
      obtain rfl := Except.ok.inj (hs.symm.trans hs')
      rw [← any_liveSessions] at hl
      obtain ⟨session, hmem, hn⟩ := List.any_eq_true.mp hl
      cases hp : a.panes name with
      | ok ps => simp [TickAnswers.failure, hp, errorOf] at hf
      | error e =>
        simp only [fails, pollPanes, hs] at hnot
        refine hnot (Finset.mem_filter.mpr ⟨failing_lists hp (.inr ⟨session, hmem, ?_⟩), hl⟩)
        simpa using hn
    · rw [sessionsLeft, hsessions, hs]
      split <;> simp_all
    · intro name
      rw [panesLeft, hlists, hs, pollList]
      cases hp : a.panes name with
      | error e => split <;> simp_all
      | ok ps =>
        by_cases hl : sessionLive sessions name
        · simp only [hl, if_true]
          split <;> simp_all
        · have hnone := countP_liveSessions hl
          split <;> simp_all
    · intro _ sessions' hs' name
      obtain rfl := Except.ok.inj (hs.symm.trans hs')
      rw [hlists]
      exact pollList_polled hlists

/-- A poll tells everything about the lists. -/
theorem lists_told (h : polling s nowMs) : ListsTold a (s.again lib a nowMs).1 := by
  have hknown := known_drained s nowMs a
  have hdue : ((s.drained nowMs a).zellij && due (s.drained nowMs a).lastPanePoll
      (s.drained nowMs a).intervals.panePollMs nowMs) = true := by
    rw [show (s.drained nowMs a).zellij = s.zellij from congrArg Known.zellij hknown,
      show (s.drained nowMs a).lastPanePoll = s.lastPanePoll from congrArg Known.lastPanePoll hknown,
      show (s.drained nowMs a).intervals = s.intervals from congrArg Known.intervals hknown]
    exact h
  have hpolled : ListsTold a (s.polled nowMs a) := by
    rw [polled, pollIfDue, if_pos hdue]
    exact lists_told_pollPanes
  have hsub : owed a (s.again lib a nowMs).1 ⊆ owed a (s.polled nowMs a) :=
    owed_subset pays_scrapeIfDue
  have hz : (s.again lib a nowMs).1.zellij = (s.polled nowMs a).zellij := zellij_scrape
  have hs : (s.again lib a nowMs).1.sessions = (s.polled nowMs a).sessions := sessions_again
  have hp : (s.again lib a nowMs).1.paneList = (s.polled nowMs a).paneList := by
    funext name
    exact paneList_again
  constructor
  · exact fun hx => hpolled.sessionsOwed (hsub hx)
  · exact fun name hx => hpolled.panesOwed name (hsub hx)
  · rw [sessionsLeft, hz, hs]
    exact hpolled.sessions
  · intro name
    rw [panesLeft, hz, hp]
    exact hpolled.panes name
  · exact hpolled.fixed.congr hz panes_again

end Told

section Rest

/-- A pane is dumped twice, the second time when the stable time of its agent has passed since
the first, and after the first of the two ticks nothing is told. -/
def Rested (lib : ScrapeLib) (a : TickAnswers) (s : Server) (ts : List ℕ) (p : PaneRef) : Prop :=
  ∃ u t mid t' post, ts = u ++ t :: (mid ++ t' :: post) ∧
    (run (again lib a) s u).scrapes t ∧
    (run (again lib a) s (u ++ t :: mid)).scrapes t' ∧
    (∀ b rule, (run (again lib a) s (u ++ t :: (mid ++ [t']))).binding p = some b →
      s.rules.rule b.agent = some rule → rule.stableMs ≤ t' - t) ∧
    outputs (again lib a) (run (again lib a) s (u ++ [t])) (mid ++ t' :: post) = []

/-- What holds of a server once its lists are the same. -/
structure Calm (a : TickAnswers) (lists : PaneLists) (rules : CompiledRules) (s : Server) : Prop where
  fixed : Fixed a s
  panes : s.panes = lists
  rules : s.rules = rules
  backed : Settling.Backed s
  aged : Aged s

variable {rules : CompiledRules} {info : PaneInfo} {screen : String}

theorem Calm.again (h : Calm a lists rules s) : Calm a lists rules (s.again lib a nowMs).1 where
  fixed := h.fixed.again
  panes := panes_again.trans (h.fixed.polled.trans h.panes)
  rules := rules_again.trans h.rules
  backed := backed_again h.backed
  aged := h.aged.tick h.backed

theorem Calm.run (h : Calm a lists rules s) : Calm a lists rules (run (Server.again lib a) s ts) :=
  run_preserves (fun _ _ h => h.again) h ts

/-- A tick, seen from a pane that can be dumped. -/
theorem pane_again (ha : a.Idle) (h : Calm a lists rules s) (honce : Once lists p)
    (hshown : shown lists p = some info) (hd : a.dump p = .ok screen) :
    ∃ listed, ((s.again lib a nowMs).1.memory p, (s.again lib a nowMs).2.filterMap (·.scraped p)) =
      if s.scrapes nowMs then
        PaneMemory.step lib { s.memory p with listed := listed } (.dump rules info screen nowMs)
      else ({ s.memory p with listed := listed }, []) := by
  have hlists : (s.polled nowMs a).panes = lists := h.fixed.polled.trans h.panes
  obtain ⟨listed, hpolled⟩ := memory_polled ha h.backed hlists hshown
  refine ⟨listed, ?_⟩
  rw [← hpolled, memory_again hlists honce, hshown, hd, h.rules]

theorem reportsLeft_calm (h : Calm a lists rules s) (hz : s.zellij)
    (hshown : shown lists p = some info) (hd : a.dump p = .ok screen) :
    reportsLeft lib a lists p s = (s.memory p).left lib rules info screen := by
  rw [reportsLeft, hz, hshown, hd, h.rules]

theorem seen_first (ha : a.Idle) (h : Calm a lists rules s) (honce : Once lists p)
    (hshown : shown lists p = some info) (hd : a.dump p = .ok screen) (hs : s.scrapes nowMs) :
    PaneMemory.Seen lib rules info screen nowMs ((s.again lib a nowMs).1.memory p) := by
  obtain ⟨listed, hmem⟩ := @pane_again lib a s nowMs p lists rules info screen ha h honce hshown hd
  rw [if_pos hs] at hmem
  have hstep := congrArg Prod.fst hmem
  simp only at hstep
  rw [hstep]
  exact PaneMemory.seen_dump fun x hx => h.aged.before hs x hx

variable {t : ℕ}

theorem seen_again (ha : a.Idle) (h : Calm a lists rules s) (honce : Once lists p)
    (hshown : shown lists p = some info) (hd : a.dump p = .ok screen)
    (hseen : PaneMemory.Seen lib rules info screen t (s.memory p))
    (hsilent : (s.again lib a nowMs).2 = []) :
    PaneMemory.Seen lib rules info screen t ((s.again lib a nowMs).1.memory p) := by
  obtain ⟨listed, hmem⟩ := @pane_again lib a s nowMs p lists rules info screen ha h honce hshown hd
  have hm : PaneMemory.Seen lib rules info screen t { s.memory p with listed := listed } :=
    PaneMemory.seen_congr rfl rfl hseen
  rw [hsilent] at hmem
  split_ifs at hmem
  · have hstep := congrArg Prod.fst hmem
    simp only at hstep
    rw [hstep]
    exact PaneMemory.seen_dump_again hm (congrArg Prod.snd hmem).symm
  · have hsame := congrArg Prod.fst hmem
    simp only at hsame
    rwa [hsame]

theorem left_again (ha : a.Idle) (h : Calm a lists rules s) (honce : Once lists p)
    (hshown : shown lists p = some info) (hd : a.dump p = .ok screen) (hs : s.scrapes nowMs)
    (hseen : PaneMemory.Seen lib rules info screen t (s.memory p))
    (hstable : ∀ b rule, (s.again lib a nowMs).1.binding p = some b →
      rules.rule b.agent = some rule → rule.stableMs ≤ nowMs - t)
    (hsilent : (s.again lib a nowMs).2 = []) :
    ((s.again lib a nowMs).1.memory p).left lib rules info screen = 0 := by
  obtain ⟨listed, hmem⟩ := @pane_again lib a s nowMs p lists rules info screen ha h honce hshown hd
  have hm : PaneMemory.Seen lib rules info screen t { s.memory p with listed := listed } :=
    PaneMemory.seen_congr rfl rfl hseen
  rw [hsilent, if_pos hs] at hmem
  have hstep := congrArg Prod.fst hmem
  simp only at hstep
  rw [hstep]
  refine PaneMemory.left_eq_zero hm (fun b rule hb => ?_) (congrArg Prod.snd hmem).symm
  rw [← hstep] at hb
  exact hstable b rule hb

/-- Two dumps of a pane that tell nothing leave it nothing to report. -/
theorem reportsLeft_rested (ha : a.Idle) (h : Calm a lists rules s) (honce : Once lists p)
    (hrest : Rested lib a s ts p) : reportsLeft lib a lists p (run (again lib a) s ts) = 0 := by
  cases hshown : shown lists p with
  | none =>
    rw [reportsLeft, hshown]
    split <;> simp_all
  | some info =>
    cases hd : a.dump p with
    | error e =>
      rw [reportsLeft, hshown, hd]
      split <;> simp_all
    | ok screen =>
      obtain ⟨u, t, mid, t', post, rfl, hscrape, hscrape', hstable, hsilent⟩ := hrest
      have hu : Calm a lists rules (run (again lib a) s u) := h.run
      rw [run_append, run_cons] at hscrape' hstable ⊢
      rw [run_concat] at hsilent
      rw [h.rules] at hstable
      generalize run (again lib a) s u = s₁ at hu hscrape hscrape' hstable hsilent ⊢
      -- after the first dump, nothing is told up to the second
      have hseen := @seen_first lib a s₁ t p lists rules info screen ha hu honce hshown hd hscrape
      have ht : Calm a lists rules (s₁.again lib a t).1 := hu.again
      generalize (s₁.again lib a t).1 = s₂ at hseen ht hscrape' hstable hsilent ⊢
      rw [outputs_append, List.append_eq_nil_iff, outputs_cons, List.append_eq_nil_iff] at hsilent
      obtain ⟨hmid, hsilent', -⟩ := hsilent
      rw [run_append, run_cons] at hstable ⊢
      rw [run_nil] at hstable
      obtain ⟨ht₃, hseen₃⟩ := Along.run (P := fun s' => Calm a lists rules s' ∧
          PaneMemory.Seen lib rules info screen t (s'.memory p))
        (fun s' nowMs hs' hs'' => ⟨hs'.1.again, seen_again ha hs'.1 honce hshown hd hs'.2 hs''⟩)
        ⟨ht, hseen⟩ (Along.of_outputs_nil hmid)
      generalize run (again lib a) s₂ mid = s₃ at ht₃ hseen₃ hscrape' hstable hsilent' ⊢
      -- the second dump leaves nothing, and nothing comes back
      have hleft := left_again ha ht₃ honce hshown hd hscrape' hseen₃ hstable hsilent'
      have ht₄ : Calm a lists rules (s₃.again lib a t').1 := ht₃.again
      have hz : (s₃.again lib a t').1.zellij = true :=
        zellij_again.trans (Bool.and_eq_true _ _ ▸ hscrape').1
      rw [← reportsLeft_calm ht₄ hz hshown hd] at hleft
      generalize (s₃.again lib a t').1 = s₄ at hleft ht₄ ⊢
      have halong := @along_fixed lib a s₄ post ht₄.fixed
      rw [ht₄.panes] at halong
      have hle := reports_le ha ht₄.backed honce halong
      rw [hleft] at hle
      exact (Tally.eq_zero hle).2

end Rest

section Quiet

variable {rules : CompiledRules}

theorem exists_target (h : holdsOpen (s.paneList p.session) p) : ∃ target ∈ s.targets, target.1 = p := by
  cases hlist : s.paneList p.session with
  | none =>
    rw [hlist] at h
    cases h
  | some ps =>
    rw [hlist] at h
    obtain ⟨q, hq, hopen⟩ := List.any_eq_true.mp h
    obtain ⟨hid, hexited⟩ := Bool.and_eq_true _ _ ▸ hopen
    refine ⟨(⟨p.session, q.id⟩, q), List.mem_filter.mpr ⟨?_, hexited⟩, ?_⟩
    · exact List.mem_flatMap.mpr ⟨(p.session, ps), ExtTreeMap.mem_toList_iff_getElem?_eq_some.mpr hlist,
        List.mem_map_of_mem hq⟩
    · rw [of_decide_eq_true hid]

/-- A scrape tells that a pane cannot be dumped. -/
theorem dump_told (hfixed : Fixed a s) (hs : s.scrapes nowMs)
    (hopen : holdsOpen (s.paneList p.session) p) :
    some (.dump p) ∉ owed a (s.again lib a nowMs).1 := by
  rintro ⟨hf, hnot, -⟩
  cases hd : a.dump p with
  | ok screen => simp [TickAnswers.failure, hd, errorOf] at hf
  | error e =>
    have hopen' : holdsOpen ((s.scraping nowMs a).paneList p.session) p := by
      have hpanes : (s.scraping nowMs a).panes = s.panes := hfixed.polled
      rwa [paneList, hpanes]
    have hfailing := @failing_targets lib (s.scraping nowMs a) nowMs a _ p e hd
      (.inr (exists_target hopen'))
    have hagain : (s.again lib a nowMs).1 =
        ((s.scraping nowMs a).scrapePanes lib nowMs a).1 := by
      rw [again, tick_fst, scrapeIfDue, ← scrapes, scrapes_polled, if_pos hs]
      rfl
    rw [hagain] at hnot
    exact hnot hfailing

/-- Nothing is left to tell. -/
structure Quiet (lib : ScrapeLib) (a : TickAnswers) (lists : PaneLists) (rules : CompiledRules)
    (s : Server) : Prop where
  calm : Calm a lists rules s
  owed : ∀ scope, scope ∉ Server.owed a s
  told : ListsTold a s
  reports : ∀ p, reportsLeft lib a lists p s = 0

/-- Without zellij there is nothing to tell about lists. -/
theorem lists_told_of_missing (hz : s.zellij = false) : ListsTold a s where
  sessionsOwed := by
    rintro ⟨-, -, hasked⟩
    exact absurd hasked (by simp [asked, hz])
  panesOwed := by
    rintro name ⟨-, -, hasked, -⟩
    exact absurd hasked (by simp [hz])
  sessions := by simp [sessionsLeft, hz]
  panes name := by simp [panesLeft, hz]
  fixed hz' := absurd hz' (by simp [hz])

theorem price_ne_zero (state : AgentState) : state.price ≠ 0 := by
  cases state <;> decide

/-- A quiet server tells nothing, and stays quiet. -/
theorem Quiet.again (ha : a.Idle) (honce : ∀ p, Once lists p) (h : Quiet lib a lists rules s) :
    (s.again lib a nowMs).2 = [] ∧ Quiet lib a lists rules (s.again lib a nowMs).1 := by
  have hlists : (s.polled nowMs a).panes = lists := h.calm.fixed.polled.trans h.calm.panes
  have hreports := fun p => @reports_left lib a s nowMs p lists ha h.calm.backed hlists (honce p)
  constructor
  · refine List.eq_nil_iff_forall_not_mem.mpr fun msg hm => ?_
    rcases again_tells ha msg hm with hmsg | hmsg | ⟨name, hmsg⟩ | ⟨pane, agent, state, rfl⟩
    · obtain ⟨scopes, hpays⟩ := @pays_tick lib s nowMs a ha
      have hmem := List.mem_map_of_mem (f := some) (List.mem_filter.mpr ⟨hm, hmsg⟩)
      change some msg ∈ ((s.tick lib nowMs a).2.filter (·.isError)).map some at hmem
      rw [← hpays.names] at hmem
      obtain ⟨scope, hscope, -⟩ := List.mem_map.mp hmem
      exact h.owed scope (hpays.mem scope hscope)
    · have hle := @sessions_left lib a s nowMs ha
      rw [h.told.sessions] at hle
      have hpos := List.countP_pos_iff (p := (·.isSessions)) |>.mpr ⟨msg, hm, hmsg⟩
      omega
    · have hle := @panes_left lib a s nowMs name ha
      rw [h.told.panes name] at hle
      have hpos := List.countP_pos_iff (p := (·.isPanes name)) |>.mpr ⟨msg, hm, hmsg⟩
      omega
    · have hle := hreports pane
      rw [h.reports pane] at hle
      have hweight : weight pane (scrapeEvent pane agent state nowMs) = state.price := by
        rw [weight, scraped_scrapeEvent, if_pos rfl]
        rfl
      have hcost := le_cost (w := weight pane) (fun _ _ => Tally.nonneg _) hm
      rw [hweight, (Tally.eq_zero hle).1] at hcost
      exact price_ne_zero state (hcost.antisymm (Tally.nonneg _))
  · refine ⟨h.calm.again, fun scope hx => h.owed scope (owed_again ha hx), h.told.again ha, fun p => ?_⟩
    have hle := hreports p
    rw [h.reports p] at hle
    exact (Tally.eq_zero hle).2

theorem Quiet.silent (ha : a.Idle) (honce : ∀ p, Once lists p) (h : Quiet lib a lists rules s) :
    outputs (Server.again lib a) s ts = [] := by
  induction ts generalizing s with
  | nil => rfl
  | cons nowMs ts ih =>
    obtain ⟨hout, hnext⟩ := @Quiet.again lib a s nowMs lists rules ha honce h
    rw [outputs_cons, hout, ih hnext]
    rfl

/-- What was told is not owed again. -/
theorem not_owed_run (ha : a.Idle) {scope : Option Scope} (h : scope ∉ Server.owed a s) :
    scope ∉ Server.owed a (run (Server.again lib a) s ts) := by
  induction ts generalizing s with
  | nil => exact h
  | cons nowMs ts ih => exact ih fun hx => h (owed_again ha hx)

theorem dump_told_rested (ha : a.Idle) (h : Calm a lists rules s)
    (hopen : holdsOpen (s.paneList p.session) p) (hrest : Rested lib a s ts p) :
    some (.dump p) ∉ Server.owed a (run (Server.again lib a) s ts) := by
  obtain ⟨u, t, mid, t', post, hts, hs, -⟩ := hrest
  have hu : Calm a lists rules (run (Server.again lib a) s u) := h.run
  have hpanes : (run (Server.again lib a) s u).panes = s.panes := hu.panes.trans h.panes.symm
  have hopen' : holdsOpen ((run (Server.again lib a) s u).paneList p.session) p := by
    rwa [paneList, hpanes]
  have hrun : run (Server.again lib a) s ts = run (Server.again lib a)
      ((run (Server.again lib a) s u).again lib a t).1 (mid ++ t' :: post) := by
    rw [hts, run_append, run_cons]
  rw [hrun]
  exact not_owed_run ha (dump_told hu.fixed hs hopen')

theorem zellij_run : (run (Server.again lib a) s ts).zellij = s.zellij :=
  run_frame Server.zellij (fun _ _ => zellij_again) _ _

theorem calm_run (hfixed : Fixed a (run (Server.again lib a) s ts)) (haged : Aged s)
    (hb : Settling.Backed s) : Calm a (run (Server.again lib a) s ts).panes s.rules
      (run (Server.again lib a) s ts) := by
  obtain ⟨haged', hb'⟩ : Aged (run (Server.again lib a) s ts) ∧
      Settling.Backed (run (Server.again lib a) s ts) :=
    run_preserves (P := fun s => Aged s ∧ Settling.Backed s)
      (fun _ _ h => ⟨h.1.tick h.2, backed_again h.2⟩) ⟨haged, hb⟩ ts
  exact ⟨hfixed, rfl, run_frame Server.rules (fun _ _ => rules_again) _ _, hb', haged'⟩

/-- Once everything was tried, and every pane rested, a server is quiet. -/
theorem quiet_run (ha : a.Idle) (haged : Aged s) (hb : Settling.Backed s) {ts₁ ts₂ : List ℕ}
    (hpoll : s.zellij → Sometime (Server.again lib a) polling s ts₁)
    (hclean : Sometime (Server.again lib a) cleaning s ts₁)
    (hsingle : ∀ p, Once (run (Server.again lib a) s ts₁).panes p)
    (hrest : ∀ target ∈ (run (Server.again lib a) s ts₁).targets,
      Rested lib a (run (Server.again lib a) s ts₁) ts₂ target.1) :
    Quiet lib a (run (Server.again lib a) s ts₁).panes s.rules
      (run (Server.again lib a) (run (Server.again lib a) s ts₁) ts₂) := by
  have htold : ListsTold a (run (Server.again lib a) s ts₁) := by
    by_cases hz : s.zellij
    · exact (hpoll hz).run (fun _ _ => lists_told) fun _ _ h => h.again ha
    · exact lists_told_of_missing (zellij_run.trans (by simpa using hz))
  have howed : some .cleanup ∉ Server.owed a (run (Server.again lib a) s ts₁) ∧
      none ∉ Server.owed a (run (Server.again lib a) s ts₁) :=
    hclean.run (P := fun s => some .cleanup ∉ Server.owed a s ∧ none ∉ Server.owed a s)
      (fun _ _ h => ⟨cleanup_told ha h, spool_told⟩)
      fun _ _ h => ⟨fun hx => h.1 (owed_again ha hx), fun hx => h.2 (owed_again ha hx)⟩
  have hcalm : Calm a (run (Server.again lib a) s ts₁).panes s.rules
      (run (Server.again lib a) s ts₁) := calm_run htold.fixed haged hb
  generalize run (Server.again lib a) s ts₁ = s₁ at htold howed hcalm hsingle hrest ⊢
  have htold₂ : ListsTold a (run (Server.again lib a) s₁ ts₂) :=
    run_preserves (fun _ _ h => h.again ha) htold ts₂
  have hcalm₂ : Calm a s₁.panes s.rules (run (Server.again lib a) s₁ ts₂) := hcalm.run
  refine ⟨hcalm₂, fun scope => ?_, htold₂, fun p => ?_⟩
  · match scope with
    | none => exact not_owed_run ha howed.2
    | some .cleanup => exact not_owed_run ha howed.1
    | some .sessions => exact htold₂.sessionsOwed
    | some (.panes name) => exact htold₂.panesOwed name
    | some (.dump p) =>
      intro howed
      have hopen : holdsOpen ((run (Server.again lib a) s₁ ts₂).paneList p.session) p := by
        obtain ⟨-, -, hz, hopen | ⟨sessions, hs, hopen⟩⟩ := howed
        · exact hopen
        · rwa [htold₂.fixed hz sessions hs] at hopen
      rw [paneList, hcalm₂.panes] at hopen
      obtain ⟨target, ht, hp⟩ := exists_target hopen
      exact dump_told_rested ha hcalm hopen (hp ▸ hrest target ht) howed
  · by_cases hp : ∃ target ∈ s₁.targets, target.1 = p
    · obtain ⟨target, ht, rfl⟩ := hp
      exact reportsLeft_rested ha hcalm (hsingle target.1) (hrest target ht)
    · have hshown : shown s₁.panes p = none := by
        rw [shown, Option.map_eq_none_iff, List.find?_eq_none]
        exact fun target ht => by simpa using fun h => hp ⟨target, ht, h⟩
      rw [reportsLeft, hshown]
      split <;> simp_all

end Quiet

/-- While the host does not change, a pane is reported little before the first poll that is
answered, and little from it on; the lists and every failure are told once. When a poll and
a clean-up were tried, and every scraped pane rested, nothing more is told. -/
theorem falls_silent (lib : ScrapeLib) (zellij : Bool) (ack : ℕ) (rules : CompiledRules)
    (is : List Input) {a : TickAnswers} (ha : a.Idle) {s : Server}
    (hs : s = run (step lib) (.new zellij ack rules) is) :
    (∀ ts : List ℕ,
      (∀ p, Single a p s → Few p (outputs (again lib a) s (stale lib a s ts)) ∧
        Few p (outputs (again lib a) (run (again lib a) s (stale lib a s ts)) (fresh lib a s ts))) ∧
      stale lib a s ts ++ fresh lib a s ts = ts ∧
      (outputs (again lib a) s ts).countP (·.isSessions) ≤ 1 ∧
      (∀ name, (outputs (again lib a) s ts).countP (·.isPanes name) ≤ entries a name) ∧
      ∃ scopes : List (Option Scope), scopes.Nodup ∧
        scopes.map a.failure = ((outputs (again lib a) s ts).filter (·.isError)).map some) ∧
    ∀ ts₁ ts₂ ts₃ : List ℕ, (∀ p, Single a p s) →
      (s.zellij → Sometime (again lib a) polling s ts₁) →
      Sometime (again lib a) cleaning s ts₁ →
      (∀ target ∈ (run (again lib a) s ts₁).targets,
        Rested lib a (run (again lib a) s ts₁) ts₂ target.1) →
      outputs (again lib a) (run (again lib a) s (ts₁ ++ ts₂)) ts₃ = [] := by
  subst hs
  obtain ⟨haged, hb⟩ := @aged_run lib zellij ack rules is
  generalize run (step lib) (.new zellij ack rules) is = s at haged hb ⊢
  constructor
  · intro ts
    refine ⟨fun p hp => ?_, before_append_since, sessions_once ha, panes_once ha, errors_once ha⟩
    constructor
    · exact few_outputs ha hb hp along_stale
    · obtain ⟨lists, hfresh⟩ := @along_fresh lib a s ts
      have hb' : Settling.Backed (run (again lib a) s (stale lib a s ts)) :=
        run_preserves (fun _ _ hb => backed_again hb) hb _
      exact few_outputs ha hb' hp.run hfresh
  · intro ts₁ ts₂ ts₃ hsingle hpoll hclean hrest
    rw [run_append]
    exact (quiet_run ha haged hb hpoll hclean (fun p => (hsingle p).run.lists) hrest).silent ha
      fun p => (hsingle p).run.lists

section Titles

/-- Two agents that are found by their titles. -/
def titleRules : CompiledRules :=
  ⟨["claude", "codex"].map fun name => ⟨name, 1000, [⟨fun title => title = name, id⟩], [], [], [], []⟩⟩

/-- A tick on a host that lists a pane once for each title. -/
def titleTick (titles : List String) : TickAnswers where
  cleanup := .ok 0
  read := .ok ⟨[], 0, 0⟩
  sessions := .ok [⟨"work", false⟩]
  panes _ := .ok (titles.map fun title => ⟨1, 0, "tab", title, none, false⟩)
  dump _ := .ok "$"

def titleServer (is : List Input) : Server :=
  run (step Settling.askLib) (.new true 0 titleRules) is

/-- The title of a pane changed after the last scrape, and again after the last poll. -/
def retitled : Server :=
  titleServer [.tick 0 (titleTick ["zsh"]), .tick 2000 (titleTick ["claude"])]

/-- Polls are far apart. -/
def seldom : Server :=
  titleServer [.app ⟨.ok (), .ok ()⟩ (.setInterval 100000 250 250), .tick 0 (titleTick ["zsh"])]

/-- A pane without an agent rests when it is scraped twice. -/
theorem rested_twice {s : Server} {t t' : ℕ} {p : PaneRef} (ht : s.scrapes t)
    (ht' : (s.again lib a t).1.scrapes t')
    (hb : (run (again lib a) s [t, t']).binding p = none)
    (hout : outputs (again lib a) s [t, t'] = []) : Rested lib a s [t, t'] p := by
  refine ⟨[], t, [], t', [], rfl, ht, ht', fun b rule hbound => ?_, ?_⟩
  · cases hb.symm.trans hbound
  · exact (List.append_eq_nil_iff.mp hout).2

/-- An agent appears twice where the lists are stale, a pane that is listed three times exits
twice, and a rest without a poll or a clean-up is followed by their news. -/
theorem not_falls_silent :
    (Single (titleTick ["codex"]) ⟨"work", 1⟩ retitled ∧
      ((outputs (again Settling.askLib (titleTick ["codex"])) retitled
        [3000, 4000, 6000, 9000, 12000]).filterMap (·.stateOf ⟨"work", 1⟩)).count .unknown = 2) ∧
    ((outputs (again Settling.askLib (titleTick ["claude", "zsh", "zsh"])) (titleServer [])
      [0, 3000]).filterMap (·.stateOf ⟨"work", 1⟩)).count .exited = 2 ∧
    ((∀ target ∈ seldom.targets,
        Rested Settling.askLib (titleTick ["fish"]) seldom [250, 500] target.1) ∧
      outputs (again Settling.askLib (titleTick ["fish"]))
        (run (again Settling.askLib (titleTick ["fish"])) seldom [250, 500]) [100000] ≠ []) ∧
    (∀ target ∈ seldom.targets,
        Rested Settling.askLib { titleTick ["zsh"] with cleanup := .error "busy" } seldom [250, 500]
          target.1) ∧
      outputs (again Settling.askLib { titleTick ["zsh"] with cleanup := .error "busy" })
        (run (again Settling.askLib { titleTick ["zsh"] with cleanup := .error "busy" }) seldom
          [250, 500]) [3600000] ≠ [] := by
  have htargets : seldom.targets = [(⟨"work", 1⟩, ⟨1, 0, "tab", "zsh", none, false⟩)] := by
    decide +kernel
  refine ⟨⟨⟨?_, ?_⟩, by decide +kernel⟩, by decide +kernel, ⟨?_, by decide +kernel⟩, ?_,
    by decide +kernel⟩
  · intro ps hps
    have hlist : retitled.panes["work"]? = some [⟨1, 0, "tab", "claude", none, false⟩] := by
      decide +kernel
    obtain rfl := Option.some.inj (hlist.symm.trans hps)
    decide
  · rintro ps ⟨⟩
    decide
  · rw [htargets]
    exact List.forall_mem_singleton.mpr (rested_twice (by decide +kernel) (by decide +kernel)
      (by decide +kernel) (by decide +kernel))
  · rw [htargets]
    exact List.forall_mem_singleton.mpr (rested_twice (by decide +kernel) (by decide +kernel)
      (by decide +kernel) (by decide +kernel))

/-- Claude is found in a shell, and its tick is repeated. -/
theorem falls_silent_appeared :
    Few ⟨"work", 1⟩ (outputs (again Settling.askLib (titleTick ["claude"])) (titleServer [])
      (fresh Settling.askLib (titleTick ["claude"]) (titleServer []) [0, 3000])) ∧
    outputs (again Settling.askLib (titleTick ["claude"]))
      (run (again Settling.askLib (titleTick ["claude"])) (titleServer []) [0, 3000, 6000])
        [9000, 12000] = [] := by
  have hidle : (titleTick ["claude"]).Idle := by
    rintro r ⟨⟩
    exact ⟨rfl, rfl⟩
  have hsingle : ∀ p, Single (titleTick ["claude"]) p (titleServer []) := by
    intro p
    constructor
    · intro ps hps
      have hlist : (titleServer []).panes = ∅ := rfl
      simp [hlist] at hps
    · rintro ps ⟨⟩
      exact (List.countP_le_length).trans (by decide)
  obtain ⟨hcounts, hsilent⟩ := falls_silent Settling.askLib true 0 titleRules [] hidle rfl
  refine ⟨(hcounts [0, 3000]).1 ⟨"work", 1⟩ (hsingle _) |>.2, ?_⟩
  refine hsilent [0] [3000, 6000] [9000, 12000] hsingle ?_ ?_ ?_
  · exact fun _ => ⟨[], 0, [], rfl, by decide +kernel⟩
  · exact ⟨[], 0, [], rfl, by decide +kernel⟩
  · have htargets : (run (again Settling.askLib (titleTick ["claude"])) (titleServer []) [0]).targets =
        [(⟨"work", 1⟩, ⟨1, 0, "tab", "claude", none, false⟩)] := by
      decide +kernel
    rw [titleServer] at htargets
    rw [htargets]
    refine List.forall_mem_singleton.mpr ⟨[], 3000, [], 6000, [], rfl, by decide +kernel,
      by decide +kernel, fun b rule hb hr => ?_, by decide +kernel⟩
    have hbound : (run (again Settling.askLib (titleTick ["claude"]))
        (run (again Settling.askLib (titleTick ["claude"])) (titleServer []) [0])
          [3000, 6000]).binding ⟨"work", 1⟩ = some ⟨"claude", false, 0⟩ := by
      decide +kernel
    obtain rfl := Option.some.inj (hbound.symm.trans hb)
    have hstable : (titleRules.rule "claude").map (·.stableMs) = some 1000 := by decide
    change titleRules.rule "claude" = some rule at hr
    rw [hr] at hstable
    have hms : rule.stableMs = 1000 := Option.some.inj hstable
    rw [hms]
    decide

end Titles

end Silence

end MultiAi
