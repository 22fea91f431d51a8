import MultiAi.Agreement.Exit

/-! # Scrape results behind hook authority

The probe reports a state once. Outside hook authority the tracker takes every
report, so it disagrees with a settled screen exactly when the state was reported
before and the agent is in another state now.
-/

namespace MultiAi

open Std Spool Server

namespace ScrapeTracker

theorem get_forget (s : ScrapeTracker) (p q : PaneRef) :
    (s.forget p).get q = if p = q then none else s.get q := by
  simp only [forget, get, ExtTreeMap.getElem?_erase, LawfulEqCmp.compare_eq_iff_eq]

theorem get_forget_all {α : Type*} (f : α → PaneRef) (gone : List α) (s : ScrapeTracker)
    (q : PaneRef) : (gone.foldl (fun s x => s.forget (f x)) s).get q =
      if q ∈ gone.map f then none else s.get q := by
  induction gone generalizing s with
  | nil => simp
  | cons x gone ih =>
    rw [List.foldl_cons, ih, get_forget]
    by_cases hx : f x = q
    · simp [hx]
    · simp [hx, Ne.symm hx]

theorem get_observe {lib : ScrapeLib} {s : ScrapeTracker} {rules : CompiledRules} {agent : String}
    {pane q : PaneRef} {screen : String} {nowMs : ℕ} (h : pane ≠ q) :
    (s.observe lib rules agent pane screen nowMs).1.get q = s.get q := by
  unfold observe
  cases rules.rule agent with
  | none => rfl
  | some rule =>
    cases s.get pane with
    | none => simp [get, ExtTreeMap.getElem?_insert, h]
    | some p => simp [get, ExtTreeMap.getElem?_insert, h]

end ScrapeTracker

namespace Settling

/-- A scrape history belongs to a bound pane of the lists. -/
def Backed (s : Server) : Prop :=
  ∀ p, s.scrape.get p ≠ none → s.binding p ≠ none ∧ paneExists s.panes p

section Backed

variable {lib : ScrapeLib} {s : Server} {nowMs : ℕ} {a : TickAnswers}

theorem backed_new (zellij : Bool) (ack : ℕ) (rules : CompiledRules) :
    Backed (.new zellij ack rules) := by
  intro p h
  simp [Server.new, ScrapeTracker.new, ScrapeTracker.get] at h

theorem binding_insert (b : Binding) (p q : PaneRef) :
    binding { s with agents := s.agents.insert p b } q = if p = q then some b else s.binding q := by
  simp only [binding, ExtTreeMap.getElem?_insert, LawfulEqCmp.compare_eq_iff_eq]

theorem binding_erase (p q : PaneRef) :
    binding { s with agents := s.agents.erase p } q = if p = q then none else s.binding q := by
  simp only [binding, ExtTreeMap.getElem?_erase, LawfulEqCmp.compare_eq_iff_eq]

/-- A pane is bound. -/
theorem Backed.bind (h : Backed s) (p : PaneRef) (b : Binding) {s' : Server}
    (hs : s'.scrape = s.scrape) (hp : s'.panes = s.panes)
    (ha : s'.agents = s.agents.insert p b) : Backed s' := by
  intro q hq
  rw [hs] at hq
  obtain ⟨hbound, hexists⟩ := h q hq
  have hb : s'.binding q = if p = q then some b else s.binding q := by
    rw [binding, ha]
    exact binding_insert b p q
  rw [hb, hp]
  refine ⟨?_, hexists⟩
  split_ifs
  · exact Option.some_ne_none b
  · exact hbound

/-- A pane is released, and its history dropped. -/
theorem Backed.release (h : Backed s) (p : PaneRef) {s' : Server}
    (hs : s'.scrape = s.scrape.forget p) (hp : s'.panes = s.panes)
    (ha : s'.agents = s.agents.erase p) : Backed s' := by
  intro q hq
  have hb : s'.binding q = if p = q then none else s.binding q := by
    rw [binding, ha]
    exact binding_erase p q
  rw [hs, ScrapeTracker.get_forget] at hq
  split_ifs at hq with hpq
  · exact absurd rfl hq
  · rw [hb, if_neg hpq, hp]
    exact h q hq

theorem Backed.drainRecord (h : Backed s) (entry : ℕ × SpoolRecord) :
    Backed (drainRecord s entry).1 := by
  obtain ⟨cursor, r⟩ := entry
  simp only [Server.drainRecord, bindRecord]
  split_ifs
  · exact h.release r.pane rfl rfl rfl
  · exact h.bind r.pane ⟨r.agent, true, 0⟩ rfl rfl rfl
  · exact h

theorem Backed.drained (h : Backed s) : Backed (s.drained nowMs a) := by
  have hclean : Backed (s.runCleanup nowMs a).1 := by
    unfold runCleanup
    split_ifs
    · split <;> exact h
    · exact h
  unfold Server.drained drainSpool
  split
  · exact hclean
  · rename_i r _
    exact Machine.run_invariant (Q := fun _ => True) (fun _ _ h _ => h.drainRecord _) hclean
      fun _ _ => trivial

theorem mem_allPanes {lists : PaneLists} {p : PaneRef} :
    p ∈ (allPanes lists).map Prod.fst ↔ paneExists lists p := by
  simp only [allPanes, paneExists, List.mem_map, List.mem_flatMap, Option.any_eq_true,
    List.any_eq_true, decide_eq_true_eq]
  constructor
  · rintro ⟨_, ⟨⟨session, ps⟩, hps, info, hinfo, rfl⟩, rfl⟩
    exact ⟨ps, ExtTreeMap.mem_toList_iff_getElem?_eq_some.mp hps, info, hinfo, rfl⟩
  · rintro ⟨ps, hps, info, hinfo, hid⟩
    refine ⟨(p, info), ⟨(p.session, ps), ExtTreeMap.mem_toList_iff_getElem?_eq_some.mpr hps, info,
      hinfo, ?_⟩, rfl⟩
    rw [hid]

theorem Backed.poll (h : Backed s) : Backed (s.pollIfDue nowMs a).1 := by
  unfold pollIfDue pollPanes
  split_ifs
  · split
    · exact h
    · rename_i sessions _
      intro q hq
      simp only [binding] at hq ⊢
      generalize (Machine.run (pollSession s.panes a.panes) _ _).fresh = fresh at hq ⊢
      have hget := ScrapeTracker.get_forget_all Prod.fst
        ((allPanes s.panes).filter fun x => !paneExists fresh x.1) s.scrape q
      rw [show (List.foldl _ _ _ : ScrapeTracker).get q = _ from hget] at hq
      split_ifs at hq with hgone
      · exact absurd rfl hq
      · obtain ⟨hbound, hexists⟩ := h q hq
        obtain ⟨x, hx, rfl⟩ := List.mem_map.mp (mem_allPanes.mpr hexists)
        have hfresh : paneExists fresh x.1 := by
          by_contra hno
          exact hgone (List.mem_map.mpr ⟨x, List.mem_filter.mpr ⟨hx, by simpa using hno⟩, rfl⟩)
        refine ⟨?_, hfresh⟩
        obtain ⟨b, hb⟩ := Option.ne_none_iff_exists'.mp hbound
        have hb : s.agents[x.1]? = some b := hb
        simp [hb, hfresh]
  · exact h

/-- A bound pane of the lists is observed. -/
theorem Backed.observe (h : Backed s) {pane : PaneRef} (hb : s.binding pane ≠ none)
    (hp : paneExists s.panes pane) (rules : CompiledRules) (agent screen : String) :
    Backed { s with scrape := (s.scrape.observe lib rules agent pane screen nowMs).1 } := by
  intro q hq
  by_cases hpq : pane = q
  · exact hpq ▸ ⟨hb, hp⟩
  · exact h q (ScrapeTracker.get_observe hpq ▸ hq)

theorem Backed.bindScrape (h : Backed s) (nowMs : ℕ) (pane : PaneRef) (p : PaneInfo) (screen : String) :
    Backed (s.bindScrape pane p screen nowMs).1 ∧
      (s.bindScrape pane p screen nowMs).1.panes = s.panes ∧
      ((s.bindScrape pane p screen nowMs).2.1 ≠ none →
        (s.bindScrape pane p screen nowMs).1.binding pane ≠ none) := by
  have hcase := bindCase s nowMs pane p screen
  generalize s.bindScrape pane p screen nowMs = r at hcase
  cases hcase with
  | hook hb => exact ⟨h, rfl, fun _ => by simp [hb]⟩
  | @kept b => exact ⟨h.bind pane { b with misses := 0 } rfl rfl rfl, rfl, fun _ => by simp [binding_insert]⟩
  | @missed b =>
    exact ⟨h.bind pane { b with misses := b.misses + 1 } rfl rfl rfl, rfl, fun hn => absurd rfl hn⟩
  | left => exact ⟨h.release pane rfl rfl rfl, rfl, fun hn => absurd rfl hn⟩
  | nothing => exact ⟨h, rfl, fun hn => absurd rfl hn⟩
  | held => exact ⟨h, rfl, fun hn => absurd rfl hn⟩
  | @bound agent =>
    exact ⟨h.bind pane ⟨agent, false, 0⟩ rfl rfl rfl, rfl, fun _ => by simp [binding_insert]⟩

theorem Backed.scrapePane (h : Backed s) {dump : PaneRef → Except String String}
    {target : PaneRef × PaneInfo} (hp : paneExists s.panes target.1) :
    Backed (scrapePane lib dump nowMs s target).1 := by
  obtain ⟨pane, p⟩ := target
  have hcase := scrapeCase lib s nowMs dump pane p
  have hclear : Backed { s with failing := s.failing.erase (.dump pane) } := h
  have hbind := fun screen => hclear.bindScrape nowMs pane p screen
  generalize Server.scrapePane lib dump nowMs s (pane, p) = r at hcase
  cases hcase with
  | failed => exact h
  | @unbound screen _ _ _ he =>
    obtain ⟨hbacked, -⟩ := hbind screen
    rwa [he] at hbacked
  | @observed screen _ _ _ _ he =>
    obtain ⟨hbacked, hpanes, hbound⟩ := hbind screen
    rw [he] at hbacked hpanes hbound
    exact hbacked.observe (hbound (Option.some_ne_none _)) (hpanes ▸ hp) _ _ _

theorem Backed.scrapes (h : Backed s) {dump : PaneRef → Except String String}
    {targets : List (PaneRef × PaneInfo)} (ht : ∀ t ∈ targets, paneExists s.panes t.1) :
    Backed (Machine.run (Server.scrapePane lib dump nowMs) s targets) := by
  induction targets generalizing s with
  | nil => exact h
  | cons t targets ih =>
    have hpanes : (Server.scrapePane lib dump nowMs s t).1.panes = s.panes :=
      congrArg Known.panes (known_scrapePane lib s nowMs dump t)
    refine ih (h.scrapePane (ht t List.mem_cons_self)) fun t' ht' => ?_
    rw [hpanes]
    exact ht t' (List.mem_cons_of_mem _ ht')

theorem targets_exist : ∀ target ∈ s.targets, paneExists s.panes target.1 := fun _ ht =>
  mem_allPanes.mp (List.mem_map_of_mem (List.mem_filter.mp ht).1)

theorem Backed.scrapeIfDue (h : Backed s) : Backed (s.scrapeIfDue lib nowMs a).1 := by
  unfold Server.scrapeIfDue
  split_ifs
  · have hstart : Backed { s with lastScrape := some nowMs } := h
    exact hstart.scrapes targets_exist
  · exact h

theorem Backed.tick (h : Backed s) : Backed (s.tick lib nowMs a).1 := by
  rw [tick_fst]
  exact Backed.scrapeIfDue h.drained.poll

end Backed

/-- The last visit of a pane by the scrape of a tick: the server that visits it, and
what the tick told before. -/
inductive Visit (lib : ScrapeLib) (s : Server) (nowMs : ℕ) (a : TickAnswers) :
    PaneRef × PaneInfo → Server → List ProbeMsg → Prop
  | last {pre post : List (PaneRef × PaneInfo)} {target : PaneRef × PaneInfo} :
      (s.polled nowMs a).zellij →
      due (s.polled nowMs a).lastScrape (s.polled nowMs a).intervals.scrapeMs nowMs →
      (s.polled nowMs a).targets = pre ++ target :: post → (∀ t ∈ post, t.1 ≠ target.1) →
      Visit lib s nowMs a target (Machine.run (scrapePane lib a.dump nowMs) (s.scraping nowMs a) pre)
        (s.news nowMs a ++
          Machine.outputs (scrapePane lib a.dump nowMs) (s.scraping nowMs a) pre)

/-- A dumped screen of a bound pane has not changed for the stable time, and shows `state`. -/
structure Settled (lib : ScrapeLib) (s : Server) (nowMs : ℕ) (a : TickAnswers)
    (target : PaneRef × PaneInfo) (agent : String) (rule : CompiledRule) (screen : String)
    (p : PaneScrape) (state : AgentState) : Prop where
  dump : a.dump target.1 = .ok screen
  bound : (s.bindScrape target.1 target.2 screen nowMs).2.1 = some agent
  ruled : s.rules.rule agent = some rule
  history : s.scrape.get target.1 = some p
  unchanged : p.hash = lib.hashScreen (rule.clean screen)
  stable : rule.stableMs ≤ nowMs - p.stableSinceMs
  shows : ScrapeTracker.settledState rule (rule.clean screen) = some state

/-- An agent is tracked and in a state. -/
def InState (m : Monitor) (key : AgentKey) (state : AgentState) : Prop :=
  (m.tracker.get key).map (·.state) = some state

section Settled

variable {lib : ScrapeLib} {s : Server} {nowMs : ℕ} {a : TickAnswers}
  {target : PaneRef × PaneInfo} {agent : String} {rule : CompiledRule} {screen : String}
  {p : PaneScrape} {state : AgentState}

theorem bindScrape_failing (failing : Finset Scope) (pane : PaneRef) (info : PaneInfo) :
    (bindScrape { s with failing := failing } pane info screen nowMs).2 =
      (s.bindScrape pane info screen nowMs).2 := by
  unfold bindScrape
  have hb : binding { s with failing := failing } pane = s.binding pane := rfl
  rw [hb]
  cases s.binding pane with
  | some b =>
    simp only
    split_ifs <;> rfl
  | none =>
    simp only
    split
    · rfl
    · split_ifs <;> rfl

/-- A settled screen is reported unless it was reported before. -/
theorem Settled.tells (h : Settled lib s nowMs a target agent rule screen p state)
    (hbacked : Backed s) : (scrapePane lib a.dump nowMs s target).2 =
      if p.emitted = some state then [] else [scrapeEvent target.1 agent state nowMs] := by
  obtain ⟨pane, info⟩ := target
  have hobserve : (s.scrape.observe lib s.rules agent pane screen nowMs).2 =
      if p.emitted = some state then none else some state := by
    have hhistory : s.scrape.get pane = some p := h.history
    simp only [ScrapeTracker.observe, h.ruled, hhistory, ScrapeTracker.observePane, h.unchanged,
      ne_eq, not_true_eq_false, if_false, h.shows, if_neg (Nat.not_lt_of_le h.stable)]
    split_ifs <;> rfl
  have hbound := h.bound
  rw [← bindScrape_failing (s.failing.erase (.dump pane))] at hbound
  have hcase := bindCase { s with failing := s.failing.erase (.dump pane) } nowMs pane info screen
  unfold scrapePane
  simp only [h.dump]
  generalize bindScrape _ pane info screen nowMs = r at hbound hcase
  have hfinish : ∀ b : Binding, b.agent = agent →
      (s.scrape.observe lib s.rules b.agent pane screen nowMs).2.map
        (scrapeEvent pane b.agent · nowMs) =
      if p.emitted = some state then none else some (scrapeEvent pane agent state nowMs) := by
    rintro b rfl
    rw [hobserve]
    split_ifs <;> rfl
  cases hcase with
  | @hook b =>
    simp only [List.nil_append, hfinish b (Option.some.inj hbound)]
    split_ifs <;> rfl
  | @kept b =>
    simp only [List.nil_append, hfinish b (Option.some.inj hbound)]
    split_ifs <;> rfl
  | bound hnone => exact absurd hnone (hbacked pane (by simp [h.history])).1
  | _ => cases hbound

end Settled

theorem backed_run {lib : ScrapeLib} {host : String} {zellij : Bool} {ack : ℕ}
    {rules : CompiledRules} {cfg : TrackerConfig} {ticks : List (ℕ × TickAnswers)} {s : Server}
    {m : Monitor} (h : Run lib host (.new zellij ack rules) cfg ticks s m) : Backed s := by
  induction h with
  | start => exact backed_new zellij ack rules
  | tick _ _ _ ih => exact ih.tick

/-- Outside hook authority the tracker takes a scrape event. -/
theorem state_onMsg_scrapeEvent {cfg : TrackerConfig} {host agent : String} {pane : PaneRef}
    {state : AgentState} {nowMs now : ℕ} {r : Option AgentRecord}
    (h : ∀ r' t, r = some r' → r'.lastHookMs = some t → cfg.hookAuthorityMs ≤ nowMs - t) :
    (Monitor.onMsg cfg (pane.key host) host (scrapeEvent pane agent state nowMs) now r).map
      (·.state) = some state := by
  have hfree : ∀ key ev, ev.tsMs = nowMs →
      (r.getD (.initial key ev)).authoritative cfg ev = false := by
    rintro key ev rfl
    cases r with
    | none => rfl
    | some r' =>
      rw [Option.getD_some, AgentRecord.authoritative]
      cases ht : r'.lastHookMs with
      | none => rfl
      | some t => exact decide_eq_false (Nat.not_lt_of_le (h r' t rfl ht))
  refine (congrArg _ (if_pos rfl)).trans ?_
  rw [Option.map_some, AgentRecord.apply_of_accept
    ((AgentRecord.accept_scrape rfl).mpr ⟨by rw [hfree _ _ rfl]; rfl, rfl⟩), AgentRecord.enter_state]

section Main

variable {lib : ScrapeLib} {host : String} {zellij : Bool} {ack : ℕ} {rules : CompiledRules}
  {cfg : TrackerConfig} {ticks : List (ℕ × TickAnswers)} {s s₁ : Server} {m : Monitor} {nowMs : ℕ}
  {a : TickAnswers} {target : PaneRef × PaneInfo} {told : List ProbeMsg}

theorem cfg_run (h : Run lib host (.new zellij ack rules) cfg ticks s m) : m.tracker.cfg = cfg := by
  induction h with
  | start => rfl
  | tick _ _ _ ih => exact (Monitor.cfg_run_take _).trans ih

theorem Visit.only (hz : (s.polled nowMs a).zellij)
    (hdue : due (s.polled nowMs a).lastScrape (s.polled nowMs a).intervals.scrapeMs nowMs)
    (htargets : (s.polled nowMs a).targets = [target]) :
    Visit lib s nowMs a target (s.scraping nowMs a) (s.news nowMs a) := by
  have hvisit := @Visit.last lib s nowMs a [] [] target hz hdue htargets (by simp)
  rwa [Machine.outputs_nil, List.append_nil] at hvisit

theorem Visit.backed (h : Visit lib s nowMs a target s₁ told) (hs : Backed s) : Backed s₁ := by
  cases h with
  | @last pre post _ _ _ htargets =>
    have hstart : Backed (s.scraping nowMs a) := hs.drained.poll
    refine hstart.scrapes fun t ht => targets_exist (s := s.polled nowMs a) t ?_
    rw [htargets]
    exact List.mem_append_left _ ht

/-- After a visit the tick tells of the pane itself, then of others. -/
theorem Visit.tells (h : Visit lib s nowMs a target s₁ told) : ∃ others : List ProbeMsg,
    (s.tick lib nowMs a).2 = told ++ ((scrapePane lib a.dump nowMs s₁ target).2 ++ others) ∧
      ∀ msg ∈ others, (∃ code text, msg = .error code text) ∨
        ∃ pane agent state, pane ≠ target.1 ∧ msg = scrapeEvent pane agent state nowMs := by
  cases h with
  | @last pre post _ hz hdue htargets hpost =>
    refine ⟨Machine.outputs (scrapePane lib a.dump nowMs) (scrapePane lib a.dump nowMs (Machine.run
      (scrapePane lib a.dump nowMs) (s.scraping nowMs a) pre) target).1 post, ?_, fun msg hm => ?_⟩
    · have hscrape : ((s.polled nowMs a).scrapeIfDue lib nowMs a).2 =
          Machine.outputs (scrapePane lib a.dump nowMs) (s.scraping nowMs a)
            (s.polled nowMs a).targets := by
        rw [scrapeIfDue, if_pos (by simp [hz, hdue])]
        rfl
      rw [tick_snd, hscrape, htargets, Machine.outputs_append, Machine.outputs_cons,
        List.append_assoc (s.news nowMs a)]
      rfl
    · obtain ⟨s', t, ht, hm⟩ := Machine.exists_of_mem_outputs hm
      rcases scrapePane_tells lib s' nowMs msg hm with he | ⟨agent, state, he⟩
      · exact .inl he
      · exact .inr ⟨t.1, agent, state, hpost t ht, he⟩

/-- Outside hook authority, a settled screen ends in its state exactly when the state
was not reported before, or the agent is in it already. -/
theorem settles_iff {agent : String} {rule : CompiledRule} {screen : String} {p : PaneScrape}
    {state : AgentState} {before rest : List (ProbeMsg × ℕ)}
    (h : Run lib host (.new zellij ack rules) cfg ticks s m)
    (hm : (before ++ rest).map Prod.fst = (s.tick lib nowMs a).2)
    (hv : Visit lib s nowMs a target s₁ (before.map Prod.fst))
    (hs : Settled lib s₁ nowMs a target agent rule screen p state)
    (hauth : ∀ r t, (Machine.run (Monitor.take host) m before).tracker.get (target.1.key host) =
      some r → r.lastHookMs = some t → cfg.hookAuthorityMs ≤ nowMs - t) :
    InState (Machine.run (Monitor.take host) m (before ++ rest)) (target.1.key host) state ↔
      (p.emitted = some state →
        InState (Machine.run (Monitor.take host) m before) (target.1.key host) state) := by
  have hcfg := cfg_run h
  obtain ⟨others, htick, hothers⟩ := hv.tells
  rw [htick, List.map_append, List.append_cancel_left_eq, hs.tells (hv.backed (backed_run h))] at hm
  rw [Machine.run_append]
  generalize hm₁ : Machine.run (Monitor.take host) m before = m₁ at hauth ⊢
  have hcfg₁ : m₁.tracker.cfg = cfg := by
    rw [← hm₁, Monitor.cfg_run_take, hcfg]
  have hframe : ∀ (m : Monitor) (msgs : List (ProbeMsg × ℕ)), msgs.map Prod.fst = others →
      (Machine.run (Monitor.take host) m msgs).tracker.get (target.1.key host) =
        m.tracker.get (target.1.key host) := by
    intro m msgs hmsgs
    refine Monitor.get_run_take fun msg hmsg cfg now r => ?_
    rcases hothers _ (hmsgs ▸ List.mem_map_of_mem hmsg) with ⟨_, _, he⟩ | ⟨pane, _, _, hne, he⟩
    · rw [he]
      rfl
    · rw [he]
      exact onMsg_scrapeEvent_ne nowMs hne
  by_cases hemitted : p.emitted = some state
  · rw [if_pos hemitted, List.nil_append] at hm
    rw [InState, hframe _ _ hm, InState]
    exact ⟨fun hin _ => hin, fun hin => hin hemitted⟩
  · rw [if_neg hemitted] at hm
    obtain ⟨⟨msg, now⟩, rest, rfl, hmsg, hrest⟩ := List.map_eq_cons_iff.mp hm
    obtain rfl : msg = scrapeEvent target.1 agent state nowMs := hmsg
    refine iff_of_true ?_ fun he => absurd he hemitted
    rw [Machine.run_cons, InState, hframe _ _ hrest, Monitor.get_take, hcfg₁]
    exact state_onMsg_scrapeEvent hauth

end Main

section Ask

def askLib : ScrapeLib := ⟨fun _ => .error "", String.length⟩

/-- One agent that asks for input with a question mark. -/
def askRule : CompiledRule :=
  ⟨"claude", 1000, [⟨fun s => s = "claude", id⟩], [], [⟨fun s => s = "?", id⟩], [], []⟩

/-- A tick on a host whose one pane shows a question mark. -/
def askTick (records : List (ℕ × SpoolRecord)) : TickAnswers where
  cleanup := .ok 0
  read := .ok ⟨records, 0, lastCursor 1 records⟩
  sessions := .ok [⟨"work", false⟩]
  panes _ := .ok [⟨1, 0, "tab", "claude", none, false⟩]
  dump _ := .ok "?"

def askTarget : PaneRef × PaneInfo := (⟨"work", 1⟩, ⟨1, 0, "tab", "claude", none, false⟩)

/-- A prompt of the user, by hook. -/
def promptRecord : SpoolRecord :=
  ⟨0, "claude", "work", 1, .obj [("hook_event_name", .str "UserPromptSubmit")]⟩

/-- After a first tick that reads `records`. -/
def asked (records : List (ℕ × SpoolRecord)) : Server × Monitor :=
  playTick askLib "host" (.new true 0 ⟨[askRule]⟩, .new .default) (0, askTick records)

/-- After a prompt, and a tick that finds the screen settled for the first time. -/
def asked' : Server × Monitor :=
  playTick askLib "host" (asked [(1, promptRecord)]) (3000, askTick [])

theorem run_asked {records : List (ℕ × SpoolRecord)}
    (h : (⟨records, 0, lastCursor 1 records⟩ : ReadResult).Forward 0) :
    Run askLib "host" (.new true 0 ⟨[askRule]⟩) .default [(0, askTick records)] (asked records).1
      (asked records).2 := by
  refine Run.tick .start ?_ (map_fst_stamp _ _)
  rintro _ ⟨⟩
  exact h

theorem run_asked' : Run askLib "host" (.new true 0 ⟨[askRule]⟩) .default
    [(0, askTick [(1, promptRecord)]), (3000, askTick [])] asked'.1 asked'.2 := by
  refine Run.play (run_asked ⟨by decide, by decide, by decide⟩) ?_
  rintro _ ⟨⟩
  exact ⟨by decide +kernel, .nil, by simp⟩

/-- The pane of `askTick`, visited by a scrape that is due. -/
theorem settled_ask {s : Server} {nowMs : ℕ} {p : PaneScrape} (hrules : s.rules = ⟨[askRule]⟩)
    (hbound : (s.bindScrape ⟨"work", 1⟩ askTarget.2 "?" nowMs).2.1 = some "claude")
    (hp : s.scrape.get ⟨"work", 1⟩ = some p) (hhash : p.hash = 1)
    (hstable : 1000 ≤ nowMs - p.stableSinceMs) :
    Settled askLib s nowMs (askTick []) askTarget "claude" askRule "?" p .needsInput where
  dump := rfl
  bound := hbound
  ruled := by
    rw [hrules]
    rfl
  history := hp
  unchanged := hhash
  stable := hstable
  shows := by decide

theorem rules_scraping (s : Server) (nowMs : ℕ) (a : TickAnswers) :
    (s.scraping nowMs a).rules = s.rules := (settings_polled s nowMs a).2.1

theorem rules_asked (records : List (ℕ × SpoolRecord)) : (asked records).1.rules = ⟨[askRule]⟩ :=
  (settings_tick askLib (.new true 0 ⟨[askRule]⟩) 0 (askTick records)).2.1

/-- The screen settles for the first time, and was not reported before. -/
theorem settles_iff_first : ∃ ticks s m, Run askLib "host" (.new true 0 ⟨[askRule]⟩) .default ticks s m ∧
    InState m ⟨"host", "work", 1⟩ .needsInput := by
  let s := (asked []).1
  let s₁ := s.scraping 3000 (askTick [])
  have hv : Visit askLib s 3000 (askTick []) askTarget s₁ (s.news 3000 (askTick [])) :=
    .only (by decide +kernel) (by decide +kernel) (by decide +kernel)
  have hs : Settled askLib s₁ 3000 (askTick []) askTarget "claude" askRule "?" ⟨1, 0, none⟩
      .needsInput :=
    settled_ask ((rules_scraping s 3000 _).trans (rules_asked [])) (by decide +kernel)
      (by decide +kernel) rfl (by decide)
  obtain ⟨others, htick, -⟩ := hv.tells
  let before := stamp 3000 (s.news 3000 (askTick []))
  let rest := stamp 3000 ((scrapePane askLib (askTick []).dump 3000 s₁ askTarget).2 ++ others)
  have hm : (before ++ rest).map Prod.fst = (s.tick askLib 3000 (askTick [])).2 := by
    rw [List.map_append, map_fst_stamp, map_fst_stamp, htick]
  have hhook : ((Machine.run (Monitor.take "host") (asked []).2 before).tracker.get
      ⟨"host", "work", 1⟩).bind (·.lastHookMs) = none := by decide +kernel
  have hread : (⟨[], 0, lastCursor 1 []⟩ : ReadResult).Forward 0 := ⟨by decide, .nil, by simp⟩
  have hrun := run_asked hread
  refine ⟨_, _, _, hrun.tick ?_ hm, (settles_iff hrun hm ?_ hs ?_).mpr nofun⟩
  · rintro _ ⟨⟩
    exact ⟨by decide +kernel, .nil, by simp⟩
  · rwa [map_fst_stamp]
  · rintro r t hr ht
    rw [show (Machine.run (Monitor.take "host") (asked []).2 before).tracker.get
      ⟨"host", "work", 1⟩ = some r from hr, Option.bind_some, ht] at hhook
    cases hhook

/-- The report was dropped within hook authority, and is not made again after it. -/
theorem not_settles : ¬ ∀ (lib : ScrapeLib) (host : String) (zellij : Bool) (ack : ℕ)
    (rules : CompiledRules) (cfg : TrackerConfig) (ticks : List (ℕ × TickAnswers)) (s s₁ : Server)
    (m : Monitor) (nowMs : ℕ) (a : TickAnswers) (target : PaneRef × PaneInfo) (agent : String)
    (rule : CompiledRule) (screen : String) (p : PaneScrape) (state : AgentState)
    (before rest : List (ProbeMsg × ℕ)), Run lib host (.new zellij ack rules) cfg ticks s m →
    (before ++ rest).map Prod.fst = (s.tick lib nowMs a).2 →
    Visit lib s nowMs a target s₁ (before.map Prod.fst) →
    Settled lib s₁ nowMs a target agent rule screen p state →
    (∀ r t, (Machine.run (Monitor.take host) m before).tracker.get (target.1.key host) = some r →
      r.lastHookMs = some t → cfg.hookAuthorityMs ≤ nowMs - t) →
    InState (Machine.run (Monitor.take host) m (before ++ rest)) (target.1.key host) state := by
  intro hall
  let s := asked'.1
  let s₁ := s.scraping 600000 (askTick [])
  have hv : Visit askLib s 600000 (askTick []) askTarget s₁ (s.news 600000 (askTick [])) :=
    .only (by decide +kernel) (by decide +kernel) (by decide +kernel)
  have hrules : s₁.rules = ⟨[askRule]⟩ := (rules_scraping s 600000 _).trans
    ((settings_tick askLib (asked [(1, promptRecord)]).1 3000 (askTick [])).2.1.trans
      (rules_asked [(1, promptRecord)]))
  have hs : Settled askLib s₁ 600000 (askTick []) askTarget "claude" askRule "?"
      ⟨1, 0, some .needsInput⟩ .needsInput :=
    settled_ask hrules (by decide +kernel) (by decide +kernel) rfl (by decide)
  have hquiet : (s.tick askLib 600000 (askTick [])).2 = [] := by decide +kernel
  have hnews : s.news 600000 (askTick []) = [] := by decide +kernel
  have hm : ([] ++ [] : List (ProbeMsg × ℕ)).map Prod.fst = (s.tick askLib 600000 (askTick [])).2 :=
    hquiet.symm
  have hin := hall askLib "host" true 0 ⟨[askRule]⟩ .default _ s s₁ asked'.2 600000 (askTick [])
    askTarget "claude" askRule "?" _ .needsInput [] [] run_asked' hm (by rwa [hnews] at hv) hs ?_
  · have hstate : (asked'.2.tracker.get ⟨"host", "work", 1⟩).map (·.state) = some .working := by
      decide +kernel
    cases hstate.symm.trans hin
  · intro r t hr ht
    have hhook : (asked'.2.tracker.get ⟨"host", "work", 1⟩).bind (·.lastHookMs) = some 0 := by
      decide +kernel
    rw [show asked'.2.tracker.get ⟨"host", "work", 1⟩ = some r from hr, Option.bind_some, ht] at hhook
    cases hhook
    decide

end Ask

end Settling

end MultiAi
