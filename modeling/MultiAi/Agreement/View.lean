import MultiAi.Agreement.Exit

/-! # The lists the app shows

A poll sends only what differs from the lists of the server, and the monitor keeps
lists of its own. The two agree, also after the server was replaced.
-/

namespace MultiAi

open Std Server

/-- What zellij answered to one poll. -/
structure Poll where
  sessions : List SessionInfo
  panes : String → Except String (List PaneInfo)

namespace Poll

/-- The last pane list of a session that was answered while it stayed live; the newest
poll comes first. -/
def lastList : List Poll → String → Option (List PaneInfo)
  | [], _ => none
  | poll :: polls, name =>
    if sessionLive poll.sessions name then
      match poll.panes name with
      | .ok ps => some ps
      | .error _ => lastList polls name
    else none

/-- The panes of a session were answered in some poll that found it live. -/
def Answered (polls : List Poll) (name : String) : Prop :=
  ∃ poll ∈ polls, sessionLive poll.sessions name ∧ ∃ ps, poll.panes name = .ok ps

end Poll

/-- The poll that an input makes, if the session list is answered. -/
def Server.poll (s : Server) : Input → Option Poll
  | .tick nowMs a => (s.polls nowMs a).map (⟨·, a.panes⟩)
  | .app .. => none

/-- A server and the monitor that applies its messages: whether the server replaced
another one, the polls it was answered, newest first, and the last session list that
any server was answered. -/
inductive Reports (lib : ScrapeLib) (host : String) :
    Server → Monitor → Bool → List Poll → List SessionInfo → Prop
  | start {m : Monitor} (zellij : Bool) (ack : ℕ) (rules : CompiledRules) :
      (m.view host).sessions = [] → (m.view host).panes = ∅ →
      Reports lib host (.new zellij ack rules) m false [] []
  | step {s : Server} {m : Monitor} {restarted : Bool} {polls : List Poll}
      {last : List SessionInfo} {msgs : List (ProbeMsg × ℕ)} (i : Input) :
      Reports lib host s m restarted polls last → msgs.map Prod.fst = (s.step lib i).2 →
      Reports lib host (s.step lib i).1 (Machine.run (Monitor.take host) m msgs) restarted
        ((s.poll i).toList ++ polls) (((s.poll i).map (·.sessions)).getD last)
  | restart {s : Server} {m : Monitor} {restarted : Bool} {polls : List Poll}
      {last : List SessionInfo} (zellij : Bool) (ack : ℕ) (rules : CompiledRules) :
      Reports lib host s m restarted polls last →
      Reports lib host (.new zellij ack rules) m true [] last

namespace View

/-- The lists of a view. -/
def lists (v : HostView) : List SessionInfo × PaneLists := (v.sessions, v.panes)

/-- What a message does to the lists of its host. -/
def onLists (x : List SessionInfo × PaneLists) : ProbeMsg → List SessionInfo × PaneLists
  | .sessions sessions => (sessions, x.2.filter fun name _ => sessionLive sessions name)
  | .panes session panes => (x.1, x.2.insert session panes)
  | _ => x

theorem lists_onView (v : HostView) (msg : ProbeMsg) :
    lists (Monitor.onView (.msg msg) v) = onLists (lists v) msg := by
  cases msg <;> rfl

theorem lists_run_take {host : String} {m : Monitor} {msgs : List (ProbeMsg × ℕ)} :
    lists ((Machine.run (Monitor.take host) m msgs).view host) =
      (msgs.map Prod.fst).foldl onLists (lists (m.view host)) := by
  induction msgs generalizing m with
  | nil => rfl
  | cons msg msgs ih =>
    have hview : (m.take host msg).1.view host = Monitor.onView (.msg msg.1) (m.view host) := by
      rw [Monitor.view, Monitor.take, Monitor.host_apply, if_pos rfl, Option.getD_some]
    rw [Machine.run_cons, ih, hview, lists_onView, List.map_cons, List.foldl_cons]

/-- Messages without lists. -/
theorem foldl_onLists {out : List ProbeMsg} (h : ∀ msg ∈ out, ∀ x, onLists x msg = x)
    (x : List SessionInfo × PaneLists) : out.foldl onLists x = x := by
  induction out generalizing x with
  | nil => rfl
  | cons msg out ih =>
    rw [List.foldl_cons, h msg List.mem_cons_self]
    exact ih (fun msg hm => h msg (List.mem_cons_of_mem _ hm)) x

theorem onLists_error {msg : ProbeMsg} (h : ∃ code text, msg = .error code text)
    (x : List SessionInfo × PaneLists) : onLists x msg = x := by
  obtain ⟨code, text, rfl⟩ := h
  rfl

/-- Folding the answers of a poll keeps the session list and takes the lists that are new. -/
theorem foldl_pollSession (old : PaneLists) (panes : String → Except String (List PaneInfo))
    (acc : Polling) (live : List SessionInfo) (x : List SessionInfo × PaneLists) :
    ((Machine.outputs (pollSession old panes) acc live).foldl onLists x).1 = x.1 ∧
      ∀ name, ((Machine.outputs (pollSession old panes) acc live).foldl onLists x).2[name]? =
        if live.any (·.name = name) then
          match panes name with
          | .ok ps => if old[name]? = some ps then x.2[name]? else some ps
          | .error _ => x.2[name]?
        else x.2[name]? := by
  induction live generalizing acc x with
  | nil => exact ⟨rfl, fun _ => rfl⟩
  | cons session live ih =>
    have hstep : ((pollSession old panes acc session).2.foldl onLists x).1 = x.1 ∧
        ∀ name, ((pollSession old panes acc session).2.foldl onLists x).2[name]? =
          if session.name = name then
            match panes name with
            | .ok ps => if old[name]? = some ps then x.2[name]? else some ps
            | .error _ => x.2[name]?
          else x.2[name]? := by
      simp only [pollSession]
      cases hp : panes session.name with
      | ok ps =>
        by_cases ho : old[session.name]? = some ps
        · simp only [ho, if_true, List.foldl_nil, true_and]
          intro name
          split_ifs with hn
          · subst hn
            simp [hp, ho]
          · rfl
        · simp only [ho, if_false, List.foldl_cons, List.foldl_nil, onLists, true_and]
          intro name
          by_cases hn : session.name = name
          · subst hn
            simp [hp, ho]
          · simp [ExtTreeMap.getElem?_insert, hn]
      | error e =>
        rw [foldl_onLists fun msg hm => onLists_error (report_tells _ _ _ _ msg hm)]
        refine ⟨rfl, fun name => ?_⟩
        split_ifs with hn
        · subst hn
          simp [hp]
        · rfl
    obtain ⟨hs, hl⟩ := hstep
    obtain ⟨ihs, ihl⟩ := ih (pollSession old panes acc session).1
      ((pollSession old panes acc session).2.foldl onLists x)
    constructor
    · rw [Machine.outputs_cons, List.foldl_append, ihs, hs]
    · intro name
      rw [Machine.outputs_cons, List.foldl_append, ihl, hl, List.any_cons]
      by_cases hn : session.name = name <;> by_cases hany : live.any (·.name = name) <;>
        cases panes name <;> simp [hn, hany]
      intro h h'
      exact absurd h' h

/-- The lists of the view and of the server, as the messages so far leave them. -/
structure Follows (s : Server) (x : List SessionInfo × PaneLists) (restarted : Bool)
    (polls : List Poll) (last : List SessionInfo) : Prop where
  sessions : x.1 = last
  known : ∀ sessions, s.sessions = some sessions → last = sessions
  live : ∀ name, x.2[name]? ≠ none → sessionLive last name
  shown : ∀ name ps, s.paneList name = some ps → x.2[name]? = some ps
  equal : ∀ name, restarted = false ∨ Poll.Answered polls name → x.2[name]? = s.paneList name
  lists : ∀ name, s.paneList name = Poll.lastList polls name

section Follows

variable {lib : ScrapeLib} {s s' : Server} {nowMs : ℕ} {a : TickAnswers}
  {x : List SessionInfo × PaneLists} {restarted : Bool} {polls : List Poll}
  {last : List SessionInfo}

theorem Follows.congr (h : Follows s x restarted polls last) (hs : s'.sessions = s.sessions)
    (hp : s'.panes = s.panes) : Follows s' x restarted polls last where
  sessions := h.sessions
  known sessions he := h.known sessions (hs ▸ he)
  live := h.live
  shown name ps he := h.shown name ps (by rwa [paneList, hp] at he)
  equal name he := by rw [h.equal name he, paneList, paneList, hp]
  lists name := by rw [← h.lists name, paneList, paneList, hp]

theorem start_follows (zellij : Bool) (ack : ℕ) (rules : CompiledRules) :
    Follows (.new zellij ack rules) ([], ∅) false [] [] := by
  constructor <;> simp [Server.new, paneList, Poll.lastList]

theorem Follows.restart (h : Follows s x restarted polls last) (zellij : Bool) (ack : ℕ)
    (rules : CompiledRules) : Follows (.new zellij ack rules) x true [] last where
  sessions := h.sessions
  known sessions he := by simp [Server.new] at he
  live := h.live
  shown name ps he := by simp [Server.new, paneList] at he
  equal name he := by simp [Poll.Answered] at he
  lists name := by simp [Server.new, paneList, Poll.lastList]

/-- The messages of a poll that was answered. -/
theorem Follows.poll {sessions : List SessionInfo} (h : Follows s x restarted polls last)
    (hs : s'.sessions = some sessions)
    (hp : ∀ name, s'.paneList name = s.pollList a sessions name) :
    Follows s' (((if s.sessions = some sessions then [] else [ProbeMsg.sessions sessions]) ++
        Machine.outputs (pollSession s.panes a.panes) ⟨s.failing.erase .sessions, ∅⟩
          (liveSessions sessions)).foldl onLists x) restarted
      (⟨sessions, a.panes⟩ :: polls) sessions := by
  -- after the session list, only the live sessions are left
  have hnews : ∃ y, (if s.sessions = some sessions then []
        else [ProbeMsg.sessions sessions]).foldl onLists x = y ∧ y.1 = sessions ∧
      ∀ name, y.2[name]? = if sessionLive sessions name then x.2[name]? else none := by
    refine ⟨_, rfl, ?_⟩
    split_ifs with heq
    · have hlast := h.known sessions heq
      refine ⟨h.sessions.trans hlast, fun name => ?_⟩
      split_ifs with hl
      · rfl
      · by_contra hne
        exact hl (hlast ▸ h.live name hne)
    · refine ⟨rfl, fun name => ?_⟩
      exact OrderedMap.getElem?_filter_key (sessionLive sessions) x.2 name
  obtain ⟨y, hy, hys, hyl⟩ := hnews
  rw [List.foldl_append, hy]
  obtain ⟨hfs, hfl⟩ := foldl_pollSession s.panes a.panes ⟨s.failing.erase .sessions, ∅⟩
    (liveSessions sessions) y
  generalize (Machine.outputs (pollSession s.panes a.panes) ⟨s.failing.erase .sessions, ∅⟩
    (liveSessions sessions)).foldl onLists y = z at hfs hfl ⊢
  have hz : ∀ name, z.2[name]? = if sessionLive sessions name then
      match a.panes name with
      | .ok ps => if s.paneList name = some ps then x.2[name]? else some ps
      | .error _ => x.2[name]?
      else none := by
    intro name
    rw [hfl, any_liveSessions, hyl]
    by_cases hl : sessionLive sessions name <;> simp only [hl] <;> rfl
  constructor
  · exact hfs.trans hys
  · rintro sessions' he
    exact Option.some.inj (hs.symm.trans he)
  · intro name hne
    by_contra hl
    exact hne (by rw [hz, if_neg hl])
  · intro name ps he
    rw [hp, pollList] at he
    rw [hz]
    split_ifs at he ⊢ with hl
    cases hans : a.panes name with
    | ok ps' =>
      rw [hans] at he
      obtain rfl := Option.some.inj he
      by_cases hold : s.paneList name = some ps'
      · simpa only [hold, if_true] using h.shown name ps' hold
      · simp only [hold, if_false]
    | error e =>
      rw [hans] at he
      exact h.shown name ps he
  · intro name he
    rw [hz, hp, pollList]
    split_ifs with hl
    · cases hans : a.panes name with
      | ok ps =>
        by_cases hold : s.paneList name = some ps
        · simpa only [hold, if_true] using h.shown name ps hold
        · simp only [hold, if_false]
      | error e =>
        refine h.equal name (he.imp id ?_)
        rintro ⟨poll, hmem, hlive, ps, hok⟩
        rcases List.mem_cons.mp hmem with rfl | hmem
        · cases hans.symm.trans hok
        · exact ⟨poll, hmem, hlive, ps, hok⟩
    · rfl
  · intro name
    cases hans : a.panes name with
    | ok ps => simp only [hp, pollList, Poll.lastList, hans]
    | error e => simp only [hp, pollList, Poll.lastList, h.lists, hans]

theorem Follows.tick (h : Follows s x restarted polls last) :
    Follows (s.tick lib nowMs a).1 ((s.tick lib nowMs a).2.foldl onLists x) restarted
      ((s.poll (.tick nowMs a)).toList ++ polls)
      (((s.poll (.tick nowMs a)).map (·.sessions)).getD last) := by
  have hknown := known_drained s nowMs a
  have hpolls : (s.drained nowMs a).polls nowMs a = s.polls nowMs a := polls_congr hknown nowMs a
  have hdrained : Follows (s.drained nowMs a) x restarted polls last :=
    h.congr (congrArg Known.sessions hknown) (congrArg Known.panes hknown)
  rw [tick_fst, tick_snd, List.foldl_append, List.foldl_append, List.foldl_append,
    foldl_onLists fun msg hm => onLists_error (runCleanup_tells s nowMs a msg hm)]
  have hread : ((s.runCleanup nowMs a).1.drainSpool a).2.foldl onLists x = x := by
    obtain ⟨errors, herrors, hout⟩ := drainSpool_tells (s.runCleanup nowMs a).1 a
    refine foldl_onLists (fun msg hm x => ?_) x
    rw [hout] at hm
    rcases List.mem_append.mp hm with hm | hm
    · exact onLists_error (herrors msg hm) x
    · obtain ⟨ev, -, rfl⟩ := List.mem_map.mp hm
      rfl
  have hscrape : ∀ y, ((s.polled nowMs a).scrapeIfDue lib nowMs a).2.foldl onLists y = y := by
    refine foldl_onLists fun msg hm y => ?_
    rcases scrapeIfDue_tells lib (s.polled nowMs a) nowMs a msg hm with
      herror | ⟨target, -, agent, state, rfl⟩
    · exact onLists_error herror y
    · rfl
  rw [hread, hscrape]
  refine Follows.congr ?_ (sessions_scrapeIfDue ..) (panes_scrapeIfDue ..)
  rcases pollIfDue_cases (s.drained nowMs a) nowMs a with
    ⟨hnone, hs, hp, hout⟩ | ⟨sessions, hsome, hs, hp, hout⟩
  · rw [foldl_onLists fun msg hm => onLists_error (hout msg hm)]
    simp only [Server.poll, ← hpolls, hnone]
    exact hdrained.congr hs hp
  · rw [hout]
    simp only [Server.poll, ← hpolls, hsome]
    exact hdrained.poll hs hp

theorem Follows.step (h : Follows s x restarted polls last) (i : Input) :
    Follows (s.step lib i).1 ((s.step lib i).2.foldl onLists x) restarted
      ((s.poll i).toList ++ polls) (((s.poll i).map (·.sessions)).getD last) := by
  cases i with
  | tick nowMs a => exact h.tick
  | app b msg =>
    obtain ⟨hs, hp⟩ := lists_handle lib s b msg
    have hout := foldl_onLists (x := x) fun m hm => onLists_error (handle_tells lib s b msg m hm)
    simp only [Server.step, Server.poll, hout]
    exact h.congr hs hp

end Follows

theorem follows_reports {lib : ScrapeLib} {host : String} {s : Server} {m : Monitor}
    {restarted : Bool} {polls : List Poll} {last : List SessionInfo}
    (h : Reports lib host s m restarted polls last) :
    Follows s (lists (m.view host)) restarted polls last := by
  induction h with
  | start zellij ack rules hs hp =>
    rw [lists, hs, hp]
    exact start_follows zellij ack rules
  | step i _ hout ih =>
    rw [lists_run_take, hout]
    exact ih.step i
  | restart zellij ack rules _ ih => exact ih.restart zellij ack rules

/-- The monitor shows the last session list, and the pane lists of the server. -/
theorem agrees {lib : ScrapeLib} {host : String} {s : Server} {m : Monitor}
    {restarted : Bool} {polls : List Poll} {last : List SessionInfo}
    (h : Reports lib host s m restarted polls last) :
    (m.view host).sessions = last ∧
      (∀ name, s.paneList name = Poll.lastList polls name) ∧
      (restarted = false → (m.view host).panes = s.panes) ∧
      (∀ name, Poll.Answered polls name → (m.view host).panes[name]? = s.paneList name) ∧
      ∀ name, (m.view host).panes[name]? ≠ none → sessionLive last name := by
  have hf := follows_reports h
  refine ⟨hf.sessions, hf.lists, fun hr => ?_, fun name hn => hf.equal name (.inr hn), hf.live⟩
  ext1 name
  exact hf.equal name (.inl hr)

/-- A pane of `work` is listed, the probe restarts, and listing its panes fails. -/
theorem agrees_restarted : ∃ (s : Server) (m : Monitor), (m.view "host").sessions = [⟨"work", false⟩] ∧
    (m.view "host").panes["work"]? ≠ s.paneList "work" ∧
    (m.view "host").panes["work"]? ≠ none ∧ sessionLive [⟨"work", false⟩] "work" := by
  let a := Late.workTick [] [⟨1, 0, "tab", "pane", none, false⟩]
  let a' := { a with panes := fun _ => .error "list-panes failed" }
  let s₁ := Server.step Late.workLib (.new true 0 ⟨[]⟩) (.tick 0 a)
  let s₂ := Server.step Late.workLib (.new true 0 ⟨[]⟩) (.tick 0 a')
  let m₁ := Machine.run (Monitor.take "host") (.new .default) (stamp 1 s₁.2)
  let m₂ := Machine.run (Monitor.take "host") m₁ (stamp 2 s₂.2)
  have hstart : Reports Late.workLib "host" (.new true 0 ⟨[]⟩) (.new .default) false [] [] :=
    .start true 0 ⟨[]⟩ (by decide +kernel) (by decide +kernel)
  have hlisted := hstart.step (.tick 0 a) (map_fst_stamp 1 _)
  have hfailed := (hlisted.restart true 0 ⟨[]⟩).step (.tick 0 a') (map_fst_stamp 2 _)
  obtain ⟨hsessions, -, -, -, hlive⟩ := agrees hfailed
  have hshown : (m₂.view "host").panes["work"]? ≠ none := by decide +kernel
  exact ⟨s₂.1, m₂, hsessions, by decide +kernel, hshown, hlive "work" hshown⟩

end View

end MultiAi
