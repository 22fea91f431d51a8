import MultiAi.Restart.Pane

/-! # The first tick of a restarted server

It reads the records past the last ack again, polls the lists and dumps every pane. After
it the server remembers of a pane what the last of its records and the screen say.
-/

namespace MultiAi

open Std Machine Spool Server Silence

/-- The last hook record of a pane. -/
def lastRecord (p : PaneRef) (records : List (ℕ × SpoolRecord)) : Option (ℕ × SpoolRecord) :=
  (records.filter (·.2.pane = p)).getLast?

/-- The hook record tells the exit of its agent. -/
def exits (entry : ℕ × SpoolRecord) : Bool := (entry.2.event entry.1).any (·.state = .exited)

/-- What a new server remembers of a pane when it has read these records. -/
def PaneMemory.replayed (p : PaneRef) (records : List (ℕ × SpoolRecord)) (listed : Bool) :
    PaneMemory :=
  match lastRecord p records with
  | none => ⟨none, false, none, listed⟩
  | some entry =>
    if exits entry then ⟨none, true, none, listed⟩
    else ⟨some ⟨entry.2.agent, true, 0⟩, false, none, listed⟩

theorem PaneMemory.replayed_listed {p : PaneRef} {records : List (ℕ × SpoolRecord)} {listed : Bool} :
    (replayed p records listed).listed = listed := by
  unfold replayed
  split
  · rfl
  · split_ifs <;> rfl

theorem PaneMemory.replayed_history {p : PaneRef} {records : List (ℕ × SpoolRecord)}
    {listed : Bool} : (replayed p records listed).history = none := by
  unfold replayed
  split
  · rfl
  · split_ifs <;> rfl

theorem lastRecord_concat (p : PaneRef) (records : List (ℕ × SpoolRecord))
    (entry : ℕ × SpoolRecord) : lastRecord p (records ++ [entry]) =
      if entry.2.pane = p then some entry else lastRecord p records := by
  rw [lastRecord, List.filter_append]
  split_ifs with hp
  · rw [List.filter_cons_of_pos (by simpa using hp)]
    exact List.getLast?_concat
  · rw [List.filter_cons_of_neg (by simpa using hp), List.filter_nil, List.append_nil]
    rfl

theorem PaneMemory.replayed_concat (lib : ScrapeLib) (p : PaneRef) (records : List (ℕ × SpoolRecord))
    (entry : ℕ × SpoolRecord) (listed : Bool) : replayed p (records ++ [entry]) listed =
      if entry.2.pane = p then
        (step lib (replayed p records listed) (.hook entry.2.agent (exits entry))).1
      else replayed p records listed := by
  split_ifs with hp
  · rw [step]
    rw [replayed, lastRecord_concat, if_pos hp]
    simp only
    split_ifs <;> simp [replayed_listed, replayed_history]
  · rw [replayed, lastRecord_concat, if_neg hp]
    rfl

/-- A server that is started over: its rules and its ack, what its host answers, and the
records that it reads again. -/
structure Restart where
  rules : CompiledRules
  ack : ℕ
  answers : TickAnswers
  replay : ReadResult

/-- The answers show a pane: it is listed once and runs, and this is its screen. -/
structure TickAnswers.Shows (a : TickAnswers) (p : PaneRef) (info : PaneInfo) (screen : String) :
    Prop where
  live : ∃ sessions, a.sessions = .ok sessions ∧ sessionLive sessions p.session
  listed : ∃ ps, a.panes p.session = .ok ps ∧ ps.filter (·.id = p.paneId) = [info]
  running : info.exited = false
  dump : a.dump p = .ok screen

namespace Restart

variable (lib : ScrapeLib) (x : Restart)

/-- The answers of the first tick. -/
def reading : TickAnswers := { x.answers with read := .ok x.replay }

/-- The server after its first tick, and what the tick tells. -/
def first (t : ℕ) : Server × List ProbeMsg := (Server.new true x.ack x.rules).tick lib t x.reading

/-- What the server tells, tick after tick. -/
def tells (t : ℕ) (ts : List ℕ) : List ProbeMsg :=
  (x.first lib t).2 ++ outputs (again lib x.answers) (x.first lib t).1 ts

variable {lib x} {p : PaneRef} {info : PaneInfo} {screen : String} {t : ℕ}

theorem memory_new (zellij : Bool) (ack : ℕ) (rules : CompiledRules) :
    (Server.new zellij ack rules).memory p = ⟨none, false, none, false⟩ := by
  ext1 <;> simp [memory, Server.new, binding, ScrapeTracker.new, ScrapeTracker.get, paneExists]

/-- The last record of a pane decides. -/
theorem memory_records (lib : ScrapeLib) {s : Server} (hz : s.zellij) (hs : s.memory p = ⟨none, false, none, false⟩)
    (records : List (ℕ × SpoolRecord)) :
    (run drainRecord s records).memory p = .replayed p records false := by
  induction records using List.reverseRecOn with
  | nil => exact hs
  | append_singleton records entry ih =>
    have hz' : (run drainRecord s records).zellij = true :=
      (congrArg Known.zellij (run_frame _ known_drainRecord s records)).trans hz
    rw [run_concat, PaneMemory.replayed_concat lib, ← ih]
    simp only [drainRecord, hz', if_true]
    exact memory_bindRecord ..

theorem memory_reading (lib : ScrapeLib) {s : Server} {a : TickAnswers} {read : ReadResult}
    (hz : s.zellij) (hs : s.memory p = ⟨none, false, none, false⟩) (hread : a.read = .ok read) :
    (s.drained t a).memory p = .replayed p read.records false := by
  have hz' : (s.runCleanup t a).1.zellij = true :=
    (congrArg Known.zellij (known_runCleanup s t a)).trans hz
  have hs' : (s.runCleanup t a).1.memory p = ⟨none, false, none, false⟩ := memory_runCleanup.trans hs
  rw [drained]
  generalize (s.runCleanup t a).1 = s₁ at hz' hs'
  simp only [drainSpool, hread]
  exact memory_records lib
    (s := { s₁ with spoolFailing := false, readCursor := read.endCursor }) hz' hs' read.records

section Shown

variable {lists : PaneLists} {ps : List PaneInfo}

theorem once_of_listed (hlist : lists[p.session]? = some ps)
    (hps : ps.filter (·.id = p.paneId) = [info]) : Once lists p := by
  intro ps' hps'
  obtain rfl := Option.some.inj (hlist.symm.trans hps')
  rw [List.countP_eq_length_filter, hps]
  exact Nat.le_refl 1

/-- A pane that is listed once and runs is met by a scrape. -/
theorem shown_of_listed (hlist : lists[p.session]? = some ps)
    (hps : ps.filter (·.id = p.paneId) = [info]) (hrunning : info.exited = false) :
    shown lists p = some info := by
  have hinfo : info ∈ ps.filter (·.id = p.paneId) := hps ▸ List.mem_singleton_self info
  obtain ⟨hmem, hid⟩ := List.mem_filter.mp hinfo
  have htarget : (p, info) ∈ (allPanes lists).filter (!·.2.exited) := by
    refine List.mem_filter.mpr ⟨List.mem_flatMap.mpr ⟨(p.session, ps), ?_, ?_⟩, ?_⟩
    · exact ExtTreeMap.mem_toList_iff_getElem?_eq_some.mpr hlist
    · refine List.mem_map.mpr ⟨info, hmem, ?_⟩
      rw [of_decide_eq_true hid]
    · simpa using hrunning
  cases hfind : ((allPanes lists).filter (!·.2.exited)).find? (·.1 = p) with
  | none =>
    have hne := List.find?_eq_none.mp hfind _ htarget
    simp at hne
  | some target =>
    obtain ⟨hall, -⟩ := List.mem_filter.mp (List.mem_of_find?_eq_some hfind)
    obtain ⟨⟨session, ps'⟩, hlist', hall⟩ := List.mem_flatMap.mp hall
    obtain ⟨q, hq, rfl⟩ := List.mem_map.mp hall
    obtain rfl : (⟨session, q.id⟩ : PaneRef) = p := by simpa using List.find?_some hfind
    obtain rfl := Option.some.inj
      (hlist.symm.trans (ExtTreeMap.mem_toList_iff_getElem?_eq_some.mp hlist'))
    have hq' : q ∈ ps.filter (·.id = q.id) := List.mem_filter.mpr ⟨hq, by simp⟩
    rw [show ps.filter (·.id = q.id) = [info] from hps] at hq'
    rw [shown, hfind, Option.map_some, List.mem_singleton.mp hq']

end Shown

section First

variable {sessions : List SessionInfo}

theorem polls_first (hs : x.answers.sessions = .ok sessions) :
    (Server.new true x.ack x.rules).polls t x.reading = some sessions := by
  have hs' : x.reading.sessions = .ok sessions := hs
  simp [polls, Server.new, due, hs', Except.toOption]

theorem panes_first : (x.first lib t).1.panes =
    ((Server.new true x.ack x.rules).polled t x.reading).panes := panes_scrapeIfDue ..

/-- The first poll lists the pane. -/
theorem list_first (h : x.answers.Shows p info screen) : ∃ ps,
    (x.first lib t).1.panes[p.session]? = some ps ∧ ps.filter (·.id = p.paneId) = [info] := by
  obtain ⟨sessions, hs, hlive⟩ := h.live
  obtain ⟨ps, hps, hinfo⟩ := h.listed
  refine ⟨ps, ?_, hinfo⟩
  have hlist : ((Server.new true x.ack x.rules).polled t x.reading).paneList p.session = _ :=
    paneList_polled (polls_first hs) p.session
  have hps' : x.reading.panes p.session = .ok ps := hps
  rw [pollList, if_pos hlive, hps'] at hlist
  rw [panes_first]
  exact hlist

theorem shown_first (h : x.answers.Shows p info screen) :
    Once (x.first lib t).1.panes p ∧ shown (x.first lib t).1.panes p = some info := by
  obtain ⟨ps, hlist, hps⟩ := @list_first lib x p info screen t h
  exact ⟨once_of_listed hlist hps, shown_of_listed hlist hps h.running⟩

theorem calm_first (h : x.answers.Shows p info screen) :
    Calm x.answers (x.first lib t).1.panes x.rules (x.first lib t).1 := by
  obtain ⟨sessions, hs, -⟩ := h.live
  obtain ⟨haged, hbacked⟩ := @aged_run lib true x.ack x.rules [.tick t x.reading]
  refine ⟨?_, rfl, (settings_tick lib _ t x.reading).2.1, hbacked, haged⟩
  have hfixed : Fixed x.reading (x.first lib t).1 :=
    (fixed_polled (polls_first hs)).congr zellij_scrape panes_again
  exact hfixed

theorem memory_polled_first (lib : ScrapeLib) (h : x.answers.Shows p info screen) :
    ((Server.new true x.ack x.rules).polled t x.reading).memory p =
      .replayed p x.replay.records true := by
  have hdrained : ((Server.new true x.ack x.rules).drained t x.reading).memory p =
      .replayed p x.replay.records false := 
    memory_reading lib rfl (memory_new ..) rfl
  obtain ⟨sessions, hs, hlive⟩ := h.live
  obtain ⟨ps, hps, hinfo⟩ := h.listed
  have hpolls : ((Server.new true x.ack x.rules).drained t x.reading).polls t x.reading =
      some sessions := (polls_congr (known_drained ..) ..).trans (polls_first hs)
  have hps' : x.reading.panes p.session = .ok ps := hps
  have hlisted : ps.any (·.id = p.paneId) := by
    have hmem : info ∈ ps.filter (·.id = p.paneId) := hinfo ▸ List.mem_singleton_self info
    exact List.any_eq_true.mpr ⟨info, List.mem_filter.mp hmem⟩
  have hb : Settling.Backed ((Server.new true x.ack x.rules).drained t x.reading) :=
    (Settling.backed_new true x.ack x.rules).drained
  rw [polled, memory_poll hb hpolls, pollList, if_pos hlive, hps', hdrained]
  simp only [Option.any_some, hlisted, if_true]
  unfold PaneMemory.replayed
  split
  · rfl
  · split_ifs <;> rfl

/-- The first tick, seen from a pane. -/
theorem pane_first (h : x.answers.Shows p info screen) :
    ((x.first lib t).1.memory p, (x.first lib t).2.filterMap (·.scraped p)) =
      (PaneMemory.replayed p x.replay.records true).step lib (.dump x.rules info screen t) := by
  obtain ⟨honce, hshown⟩ := @shown_first lib x p info screen t h
  rw [panes_first] at honce hshown
  have hagain : ((x.first lib t).1.memory p, (x.first lib t).2.filterMap (·.scraped p)) = _ :=
    memory_again rfl honce
  have hdump : x.reading.dump p = .ok screen := h.dump
  have hscrapes : (Server.new true x.ack x.rules).scrapes t = true := rfl
  rw [hagain, hshown, hdump]
  simp only [hscrapes, if_true]
  rw [memory_polled_first lib h]
  rfl

end First

end Restart

end MultiAi
