import MultiAi.Agreement.View
import MultiAi.Probe.Zellij

/-! # What zellij lists and the app shows

The lists of the app come from the texts that zellij prints when the probe runs it. Each command
may also fail or hang.
-/

namespace MultiAi.Zellij

open Std Server

/-- One tick of a probe: what each command gives, the sessions and panes that zellij has when it
is asked for them, and what the spool answers. -/
structure Glance where
  run : List String → Ran
  sessions : List Session
  panes : String → List RawPane
  cleanup : Except String ℕ
  read : Except String Spool.ReadResult

section Glance

variable (lib : ZellijLib) (exe : String) (g : Glance)

/-- What the probe makes of the commands of a tick. -/
def Glance.answers : TickAnswers where
  cleanup := g.cleanup
  read := g.read
  sessions := Zellij.sessions exe g.run
  panes := Zellij.panes lib exe g.run
  dump := dumpScreen exe g.run

/-- zellij lists what it has, where a listing works. -/
structure Glance.Honest : Prop where
  sessions : ∀ out, g.run ["list-sessions", "-n"] = .ended out → out.Lists g.sessions ∨ out.Fails
  panes : ∀ name out, g.run (actionArgv name ["list-panes", "-a", "-j"]) = .ended out →
    out.success → out.Describes lib (g.panes name)

/-- A session was live, and its panes were listed. -/
def Glance.Saw (name : String) : Prop :=
  sessionLive (g.sessions.map Session.info) name ∧ (Zellij.panes lib exe g.run name).isOk

/-- The terminal panes of a session when they were last listed while it stayed live; the newest
tick comes first. -/
def lastSeen : List Glance → String → Option (List PaneInfo)
  | [], _ => none
  | g :: gs, name =>
    if sessionLive (g.sessions.map Session.info) name then
      if (Zellij.panes lib exe g.run name).isOk then some (terminals (g.panes name))
      else lastSeen gs name
    else none

/-- The poll of a tick. -/
def Glance.poll : Poll := ⟨g.sessions.map Session.info, Zellij.panes lib exe g.run⟩

end Glance

/-- A probe that runs zellij and the app that takes its messages: whether the probe replaced
another one, the ticks of this probe that listed the sessions, newest first, the sessions that any
probe listed last, and the ticks of all probes. -/
inductive Watches (scrape : ScrapeLib) (lib : ZellijLib) (exe host : String) :
    Server → Monitor → Bool → List Glance → List Session → List Glance → Prop
  | start {m : Monitor} (zellij : Bool) (ack : ℕ) (rules : CompiledRules) :
      (m.view host).sessions = [] → (m.view host).panes = ∅ →
      Watches scrape lib exe host (.new zellij ack rules) m false [] [] []
  | tick {s : Server} {m : Monitor} {restarted : Bool} {gs all : List Glance}
      {last : List Session} {msgs : List (ProbeMsg × ℕ)} (nowMs : ℕ) (g : Glance) :
      Watches scrape lib exe host s m restarted gs last all → g.Honest lib →
      msgs.map Prod.fst = (s.tick scrape nowMs (g.answers lib exe)).2 →
      Watches scrape lib exe host (s.tick scrape nowMs (g.answers lib exe)).1
        (Machine.run (Monitor.take host) m msgs) restarted
        (if (s.polls nowMs (g.answers lib exe)).isSome then g :: gs else gs)
        (if (s.polls nowMs (g.answers lib exe)).isSome then g.sessions else last) (g :: all)
  | app {s : Server} {m : Monitor} {restarted : Bool} {gs all : List Glance}
      {last : List Session} {msgs : List (ProbeMsg × ℕ)} (b : HandleAnswers) (msg : AppMsg) :
      Watches scrape lib exe host s m restarted gs last all →
      msgs.map Prod.fst = (s.handle scrape b msg).2.2 →
      Watches scrape lib exe host (s.handle scrape b msg).1
        (Machine.run (Monitor.take host) m msgs) restarted gs last all
  | restart {s : Server} {m : Monitor} {restarted : Bool} {gs all : List Glance}
      {last : List Session} (zellij : Bool) (ack : ℕ) (rules : CompiledRules) :
      Watches scrape lib exe host s m restarted gs last all →
      Watches scrape lib exe host (.new zellij ack rules) m true [] last all

section Polls

variable {scrape : ScrapeLib} {lib : ZellijLib} {exe host : String} {s : Server} {m : Monitor}
  {restarted : Bool} {gs all : List Glance} {last : List Session} {g : Glance} {nowMs : ℕ}

/-- The poll of a tick that lists the sessions. -/
theorem poll_tick (h : g.Honest lib) : s.poll (.tick nowMs (g.answers lib exe)) =
    if (s.polls nowMs (g.answers lib exe)).isSome then some (g.poll lib exe) else none := by
  rw [Server.poll]
  cases hp : s.polls nowMs (g.answers lib exe) with
  | none => rfl
  | some found =>
    have hfound : Zellij.sessions exe g.run = .ok found := answer_of_polls hp
    rw [sessions_answer h.sessions hfound]
    rfl

/-- What a probe that runs zellij reports. -/
theorem Watches.reports (h : Watches scrape lib exe host s m restarted gs last all) :
    Reports scrape host s m restarted (gs.map (Glance.poll lib exe)) (last.map Session.info) := by
  induction h with
  | start zellij ack rules hs hp => exact .start zellij ack rules hs hp
  | @tick s m restarted gs all last msgs nowMs g _ hg hout ih =>
    have hstep := ih.step (.tick nowMs (g.answers lib exe)) hout
    rw [poll_tick hg] at hstep
    split_ifs at hstep ⊢ with hp
    · exact hstep
    · exact hstep
  | app b msg _ hout ih => exact ih.step (.app b msg) hout
  | restart zellij ack rules _ ih => exact ih.restart zellij ack rules

theorem Watches.honest (h : Watches scrape lib exe host s m restarted gs last all) :
    ∀ g ∈ all, g.Honest lib := by
  induction h with
  | start => simp
  | tick _ _ _ hg _ ih => exact List.forall_mem_cons.mpr ⟨hg, ih⟩
  | app _ _ _ _ ih => exact ih
  | restart _ _ _ _ ih => exact ih

theorem Watches.subset (h : Watches scrape lib exe host s m restarted gs last all) :
    ∀ g ∈ gs, g ∈ all := by
  induction h with
  | start => simp
  | tick _ _ _ _ _ ih =>
    intro g' hg'
    split_ifs at hg'
    · rcases List.mem_cons.mp hg' with rfl | hg'
      · exact List.mem_cons_self
      · exact List.mem_cons_of_mem _ (ih g' hg')
    · exact List.mem_cons_of_mem _ (ih g' hg')
  | app _ _ _ _ ih => exact ih
  | restart => simp

/-- The last answered list of a session is what zellij had. -/
theorem lastList_poll (h : ∀ g ∈ gs, g.Honest lib) (name : String) :
    Poll.lastList (gs.map (Glance.poll lib exe)) name = lastSeen lib exe gs name := by
  induction gs with
  | nil => rfl
  | cons g gs ih =>
    obtain ⟨hg, hgs⟩ := List.forall_mem_cons.mp h
    rw [List.map_cons, Poll.lastList, lastSeen, ih hgs]
    have hpanes : (g.poll lib exe).panes name = Zellij.panes lib exe g.run name := rfl
    by_cases hl : sessionLive (g.sessions.map Session.info) name
    · have hl' : sessionLive (g.poll lib exe).sessions name := hl
      rw [if_pos hl', if_pos hl, hpanes]
      cases hp : Zellij.panes lib exe g.run name with
      | ok ps =>
        rw [panes_answer (hg.panes name) hp]
        rfl
      | error e => rfl
    · have hl' : ¬ sessionLive (g.poll lib exe).sessions name := hl
      rw [if_neg hl', if_neg hl]

theorem answered_poll {name : String} :
    Poll.Answered (gs.map (Glance.poll lib exe)) name ↔ ∃ g ∈ gs, g.Saw lib exe name := by
  constructor
  · rintro ⟨poll, hm, hl, ps, hok⟩
    obtain ⟨g, hg, rfl⟩ := List.mem_map.mp hm
    exact ⟨g, hg, hl, by rw [show Zellij.panes lib exe g.run name = .ok ps from hok]; rfl⟩
  · rintro ⟨g, hg, hl, hok⟩
    cases hp : Zellij.panes lib exe g.run name with
    | ok ps => exact ⟨_, List.mem_map_of_mem hg, hl, ps, hp⟩
    | error e => simp [hp, Except.isOk, Except.toBool] at hok

/-- A tick tells of no other panes than it was answered. -/
theorem panes_tick {a : TickAnswers} {name : String} {ps : List PaneInfo}
    (h : .panes name ps ∈ (s.tick scrape nowMs a).2) : a.panes name = .ok ps := by
  have herror : ¬ ∃ code text, ProbeMsg.panes name ps = .error code text := by simp
  rw [tick_snd] at h
  simp only [List.mem_append] at h
  rcases h with ((h | h) | h) | h
  · exact absurd (runCleanup_tells s nowMs a _ h) herror
  · obtain ⟨errors, herrors, hout⟩ := drainSpool_tells (s.runCleanup nowMs a).1 a
    rw [hout] at h
    rcases List.mem_append.mp h with h | h
    · exact absurd (herrors _ h) herror
    · simp at h
  · rcases pollIfDue_cases (s.drained nowMs a) nowMs a with
      ⟨-, -, -, hout⟩ | ⟨sessions, -, -, -, hout⟩
    · exact absurd (hout _ h) herror
    · rw [hout] at h
      rcases List.mem_append.mp h with h | h
      · split_ifs at h <;> simp at h
      · obtain ⟨acc, session, -, h⟩ := Machine.exists_of_mem_outputs h
        simp only [pollSession] at h
        split at h
        · split_ifs at h
          · cases h
          · cases List.mem_singleton.mp h
            assumption
        · exact absurd (report_tells _ _ _ _ _ h) herror
  · rcases scrapeIfDue_tells scrape (s.polled nowMs a) nowMs a _ h with
      h | ⟨target, -, agent, state, h⟩
    · exact absurd h herror
    · cases h

/-- The pane lists of a view after some messages are old ones or among the messages. -/
theorem foldl_onLists_panes {out : List ProbeMsg} {x : List SessionInfo × PaneLists} {name : String}
    {ps : List PaneInfo} (h : (out.foldl View.onLists x).2[name]? = some ps) :
    x.2[name]? = some ps ∨ .panes name ps ∈ out := by
  induction out generalizing x with
  | nil => exact .inl h
  | cons msg out ih =>
    rcases ih h with hx | hx
    · cases msg with
      | panes session panes =>
        simp only [View.onLists, Std.ExtTreeMap.getElem?_insert, Std.compare_eq_iff_eq] at hx
        split_ifs at hx with heq
        · rw [heq, Option.some.inj hx]
          exact .inr List.mem_cons_self
        · exact .inl hx
      | sessions sessions =>
        rw [View.onLists, OrderedMap.getElem?_filter_key] at hx
        split_ifs at hx
        exact .inl hx
      | _ => exact .inl hx
    · exact .inr (List.mem_cons_of_mem _ hx)

/-- The app shows no panes of a session but those zellij had in some tick. -/
theorem Watches.panes_seen (h : Watches scrape lib exe host s m restarted gs last all)
    {name : String} {ps : List PaneInfo} (hp : (m.view host).panes[name]? = some ps) :
    ∃ g ∈ all, ps = terminals (g.panes name) := by
  induction h generalizing ps with
  | start _ _ _ _ hnone => simp [hnone] at hp
  | @tick s m restarted gs all last msgs nowMs g _ hg hout ih =>
    have hview : (View.lists ((Machine.run (Monitor.take host) m msgs).view host)).2[name]? =
      some ps := hp
    rw [View.lists_run_take, hout] at hview
    rcases foldl_onLists_panes hview with h | h
    · obtain ⟨g', hg', heq⟩ := ih h
      exact ⟨g', List.mem_cons_of_mem _ hg', heq⟩
    · exact ⟨g, List.mem_cons_self, panes_answer (hg.panes name) (panes_tick h)⟩
  | @app s m restarted gs all last msgs b msg _ hout ih =>
    have hview : (View.lists ((Machine.run (Monitor.take host) m msgs).view host)).2[name]? =
      some ps := hp
    rw [View.lists_run_take, hout] at hview
    rcases foldl_onLists_panes hview with h | h
    · exact ih h
    · obtain ⟨code, text, he⟩ := handle_tells scrape s b msg _ h
      cases he
  | restart _ _ _ _ ih => exact ih hp

end Polls

section Sample

def workSession : Session := ⟨"work".toList, " 1h ago] (current)".toList, false⟩

def oldSession : Session :=
  ⟨"old".toList, " 2days ago] (EXITED - attach to resurrect)".toList, true⟩

def claudePane : RawPane := ⟨1, false, "shell", false, 0, "main", some "bash", some "claude"⟩

def barPane : RawPane := ⟨0, true, "tab-bar", false, 0, "main", none, none⟩

/-- A stand-in for the JSON library, which knows one text. -/
def workLib : ZellijLib where
  codec := ⟨fun _ => "", fun text =>
    if text = "panes" then some (.arr [.obj barPane.fields, .obj (("is_focused", .bool true) ::
      claudePane.fields)]) else none, fun _ => "", fun _ => none⟩
  jsonError _ := "expected value"

def workOut : Output :=
  ⟨true, "exit status: 0", listing [workSession, oldSession], []⟩

/-- A tick in which zellij works. -/
def workGlance : Glance where
  run args :=
    if args = ["list-sessions", "-n"] then .ended workOut
    else if args = actionArgv "work" ["list-panes", "-a", "-j"] then
      .ended ⟨true, "exit status: 0", "panes".toList, []⟩
    else .timedOut
  sessions := [workSession, oldSession]
  panes _ := [barPane, claudePane]
  cleanup := .ok 0
  read := .ok ⟨[], 0, 0⟩

theorem plain_sample : ∀ z ∈ [workSession, oldSession], z.Plain := by
  have hwork : workSession.Plain := by
    constructor <;> decide
  have hold : oldSession.Plain := by
    constructor <;> decide
  simp [hwork, hold]

theorem described_sample : barPane.Described barPane.fields ∧
    claudePane.Described (("is_focused", .bool true) :: claudePane.fields) :=
  ⟨⟨by decide, by decide, fun _ _ => rfl⟩, ⟨by decide, by decide, by decide⟩⟩

theorem honest_sample : workGlance.Honest workLib where
  sessions := by
    intro out h
    cases h
    exact .inl (.inr ⟨rfl, rfl, by decide, plain_sample⟩)
  panes := by
    intro name out h _
    have hname : name = "work" := by
      by_contra hne
      simp [workGlance, actionArgv, hne] at h
    subst hname
    cases h
    exact ⟨_, rfl, .cons ⟨_, rfl, described_sample.1⟩ (.cons ⟨_, rfl, described_sample.2⟩ .nil)⟩

end Sample

end MultiAi.Zellij
