import MultiAi.Library.Replay
import MultiAi.Monitor.Basic
import MultiAi.Relay.Serve
import Mathlib.Logic.Relation

/-! # Delivery of hook events

One host that stays configured: hooks append to the spool, one serve at a time
relays to the monitor, and a restart may come at any point. Every hook event takes
effect exactly once.
-/

namespace MultiAi

open Spool

/-- The host, the app, and three histories: the hook events handed to the monitor,
those it applied, and those the tracker let past its offset check. -/
structure Relay where
  spool : SpoolLog
  ack : ℕ
  serve : Serve
  /-- Messages handed to the monitor and not applied yet. -/
  queue : List ProbeMsg
  monitor : Monitor
  handed : List AgentEvent
  applied : List AgentEvent
  accepted : List AgentEvent

theorem ProbeMsg.eq_of_hook {msg : ProbeMsg} {ev : AgentEvent} (h : msg.hook = some ev) :
    msg = .agentEvent ev := by
  cases msg with
  | agentEvent ev' =>
    simp only [ProbeMsg.hook, Option.ite_none_right_eq_some] at h
    rw [Option.some.inj h.2]
  | _ => cases h

namespace Relay

def start (zellij : Bool) (rules : CompiledRules) (cfg : TrackerConfig) : Relay where
  spool := []
  ack := 0
  serve := .new zellij rules 0
  queue := []
  monitor := .new cfg
  handed := []
  applied := []
  accepted := []

/-- A step of the serve. -/
def afterServe (s : Relay) (serve : Serve) : ServeEvent → Relay
  | .silent => { s with serve := serve }
  | .hand msg =>
    { s with serve := serve, queue := s.queue ++ [msg], handed := s.handed ++ hooks [msg] }
  | .store offset => { s with serve := serve, ack := offset }

/-- The tracker lets a hook event past its offset check. -/
def passes (t : Tracker) (host : String) (ev : AgentEvent) : Bool :=
  !(t.entry (.fromEvent host ev) ev).staleHook ev

/-- The monitor applies the next message of its queue. -/
def applyMsg (s : Relay) (host : String) (msg : ProbeMsg) (queue : List ProbeMsg) (nowMs : ℕ) :
    Relay :=
  { s with
    queue := queue
    monitor := (s.monitor.apply host (.msg msg) nowMs).1
    applied := s.applied ++ hooks [msg]
    accepted := s.accepted ++ (hooks [msg]).filter (passes s.monitor.tracker host) }

/-- A new serve from the stored offset; what was in flight is lost. -/
def restart (s : Relay) (zellij : Bool) (rules : CompiledRules) : Relay :=
  { s with serve := .new zellij rules s.ack }

variable (lib : ScrapeLib) (host : String)

inductive Step : Relay → Relay → Prop
  | append {s : Relay} {x : ℕ × SpoolRecord} : s.spool.top < x.1 →
      Step s { s with spool := s.spool ++ [x] }
  | serve {s : Relay} {ev : ServeEvent} {serve : Serve} : Serve.Step lib s.spool s.serve ev serve →
      Step s (s.afterServe serve ev)
  | apply {s : Relay} {msg : ProbeMsg} {queue : List ProbeMsg} {nowMs : ℕ} :
      s.queue = msg :: queue → Step s (s.applyMsg host msg queue nowMs)
  /-- The monitor applies an event of another host, or one that is no probe message. -/
  | other {s : Relay} {id : String} {ev : HostEvent} {nowMs : ℕ} :
      id ≠ host ∨ (∀ msg, ev ≠ .msg msg) →
      Step s { s with monitor := (s.monitor.apply id ev nowMs).1 }
  | acknowledge {s : Relay} {key : AgentKey} :
      Step s { s with monitor := (s.monitor.acknowledge key).1 }
  | restart {s : Relay} {zellij : Bool} {rules : CompiledRules} : Step s (s.restart zellij rules)

def Reachable (s : Relay) : Prop :=
  ∃ zellij rules cfg, Relation.ReflTransGen (Step lib host) (start zellij rules cfg) s

/-- The events of one agent. -/
def ofKey (key : AgentKey) (evs : List AgentEvent) : List AgentEvent :=
  evs.filter fun ev => AgentKey.fromEvent host ev = key

structure Inv (s : Relay) : Prop where
  sorted : s.spool.Sorted
  serve : ∃ p, s.serve.Inv s.spool (· ∈ s.handed) p
  top : s.ack ≤ s.spool.top
  acked : ∀ ev ∈ recordEvents s.spool, ev.cursor ≤ s.ack → ev ∈ s.handed
  gapless : Replay.Gapless AgentEvent.cursor (recordEvents s.spool) s.handed
  queue : s.handed = s.applied ++ hooks s.queue
  accepted : ∀ key, ofKey host key s.accepted =
    Replay.accepted AgentEvent.cursor (ofKey host key s.applied)
  /-- The tracker remembers the cursor of the last event it accepted. -/
  offset : ∀ key, key.hostId = host → (s.monitor.tracker.get key).bind (·.lastHookOffset) =
    (ofKey host key s.accepted).getLast?.map AgentEvent.cursor

section Offset

variable {cfg : TrackerConfig} {key : AgentKey} {id : String} {nowMs : ℕ} {r : Option AgentRecord}

theorem entry_lastHookOffset (ev : AgentEvent) :
    (r.getD (.initial key ev)).lastHookOffset = r.bind (·.lastHookOffset) := by
  cases r <;> rfl

/-- Only a hook event of the agent itself moves its last offset. -/
theorem lastHookOffset_onMsg {msg : ProbeMsg}
    (h : ∀ ev, msg.hook = some ev → AgentKey.fromEvent id ev ≠ key) :
    (Monitor.onMsg cfg key id msg nowMs r).bind (·.lastHookOffset) =
      r.bind (·.lastHookOffset) := by
  cases msg with
  | sessions sessions =>
    cases r with
    | none => rfl
    | some r =>
      simp only [Monitor.onMsg, Option.map_some, Option.bind_some]
      split_ifs <;> rfl
  | panes session panes =>
    cases r with
    | none => rfl
    | some r =>
      simp only [Monitor.onMsg, Option.map_some, Option.bind_some]
      split_ifs <;> rfl
  | agentEvent ev =>
    simp only [Monitor.onMsg]
    split_ifs with hk
    · have hs : ev.source ≠ .hook := fun hs => h ev (if_pos hs) hk
      rw [Option.bind_some, AgentRecord.apply_lastHookOffset, if_neg fun hc => hs hc.1,
        entry_lastHookOffset]
    · rfl
  | metrics => rfl
  | error => rfl
  | hello => rfl
  | heartbeat => rfl

theorem lastHookOffset_other {host : String} {ev : HostEvent} (hid : key.hostId = host)
    (h : id ≠ host ∨ ∀ msg, ev ≠ .msg msg) :
    (Monitor.onEvent cfg key id ev nowMs r).bind (·.lastHookOffset) =
      r.bind (·.lastHookOffset) := by
  cases ev with
  | msg msg =>
    refine lastHookOffset_onMsg fun ev _ hk => ?_
    rcases h with h | h
    · exact h ((congrArg AgentKey.hostId hk).trans hid)
    · exact h msg rfl
  | _ => rfl

theorem lastHookOffset_hook {ev : AgentEvent} (hs : ev.source = .hook)
    (ho : ev.spoolOffset = some ev.cursor) (hk : AgentKey.fromEvent id ev = key) :
    (Monitor.onMsg cfg key id (.agentEvent ev) nowMs r).bind (·.lastHookOffset) =
      if (r.getD (.initial key ev)).staleHook ev then r.bind (·.lastHookOffset)
      else some ev.cursor := by
  rw [Monitor.onMsg, if_pos hk, Option.bind_some, AgentRecord.apply_lastHookOffset,
    entry_lastHookOffset, ho, Option.some_or]
  cases (r.getD (.initial key ev)).staleHook ev <;> simp [hs]

end Offset

section OfKey

variable {host} {key : AgentKey} {evs : List AgentEvent} {ev : AgentEvent}

theorem ofKey_append (evs' : List AgentEvent) :
    ofKey host key (evs ++ evs') = ofKey host key evs ++ ofKey host key evs' :=
  List.filter_append _ _

theorem ofKey_single (h : AgentKey.fromEvent host ev = key) : ofKey host key [ev] = [ev] :=
  List.filter_cons_of_pos (by simpa using h)

theorem ofKey_single_ne (h : AgentKey.fromEvent host ev ≠ key) : ofKey host key [ev] = [] :=
  List.filter_cons_of_neg (by simpa using h)

end OfKey

variable {lib host} {s s' : Relay}

/-- The offset check of the tracker is the receiver's check of the last entry it took. -/
theorem passes_iff (h : s.Inv host) {ev : AgentEvent} (hev : ev ∈ recordEvents s.spool) :
    passes s.monitor.tracker host ev =
      !(ofKey host (.fromEvent host ev) s.accepted).getLast?.any (ev.cursor ≤ ·.cursor) := by
  have hoff : (s.monitor.tracker.entry (.fromEvent host ev) ev).lastHookOffset =
      (ofKey host (.fromEvent host ev) s.accepted).getLast?.map AgentEvent.cursor :=
    (entry_lastHookOffset ev).trans (h.offset _ rfl)
  simp only [passes, AgentRecord.staleHook, (mem_recordEvents hev).2.1, hoff, Option.any_map]

theorem inv_start (zellij : Bool) (rules : CompiledRules) (cfg : TrackerConfig) :
    (start zellij rules cfg).Inv host where
  sorted := List.Pairwise.nil
  serve := ⟨0, .new (fun _ h => (List.not_mem_nil h).elim) (Nat.zero_le _)⟩
  top := Nat.zero_le _
  acked _ h := (List.not_mem_nil h).elim
  gapless := .nil
  queue := rfl
  accepted _ := rfl
  offset key _ := by simp [start, Monitor.new, ofKey]

theorem Inv.append (h : s.Inv host) {x : ℕ × SpoolRecord} (hx : s.spool.top < x.1) :
    Inv host { s with spool := s.spool ++ [x] } := by
  obtain ⟨p, hp⟩ := h.serve
  have hcursor : ∀ ev ∈ recordEvents [x], ev.cursor = x.1 := fun ev he => by
    obtain ⟨-, -, r, hr, -⟩ := mem_recordEvents he
    exact congrArg Prod.fst (List.mem_singleton.mp hr)
  have htop : s.spool.top < SpoolLog.top (s.spool ++ [x]) := hx.trans_eq (SpoolLog.top_append x).symm
  have hgap : Replay.Gapless AgentEvent.cursor (recordEvents (s.spool ++ [x])) s.handed := by
    rw [recordEvents_append]
    cases he : recordEvents [x] with
    | nil => rw [List.append_nil]; exact h.gapless
    | cons ev rest =>
      have hlen : (recordEvents [x]).length ≤ 1 := List.length_filterMap_le _ _
      have hrest : rest = [] := by
        rw [he] at hlen
        exact List.eq_nil_of_length_eq_zero (by simpa using hlen)
      subst hrest
      refine h.gapless.extend fun e' he' => ?_
      have hc := hcursor ev (he ▸ List.mem_cons_self)
      exact hc ▸ (cursor_le_top h.sorted he').trans_lt hx
  exact { h with
    sorted := h.sorted.append hx
    serve := ⟨p, hp.append hx⟩
    top := h.top.trans htop.le
    acked := fun ev he hle => by
      rw [recordEvents_append] at he
      rcases List.mem_append.mp he with he | he
      · exact h.acked ev he hle
      · have hc := hcursor ev he
        exact absurd (hle.trans h.top) (hc ▸ Nat.not_le_of_lt hx)
    gapless := hgap }

/-- What a serve hands on is in the history, and what it stores was handed on. -/
theorem Inv.serveStep (h : s.Inv host) {ev : ServeEvent} {serve : Serve}
    (hs : Serve.Step lib s.spool s.serve ev serve) : Inv host (s.afterServe serve ev) := by
  obtain ⟨p, hp⟩ := h.serve
  obtain ⟨hsteps, p', hp'⟩ := hp.step h.sorted hs
  cases ev with
  | silent => exact { h with serve := ⟨p', hp'.mono fun e he => he.resolve_right (by simp)⟩ }
  | hand msg =>
    have hmem : ∀ e, msg.hook = some e → e ∈ hooks [msg] := fun e he => by simp [hooks, he]
    have hgap : Replay.Gapless AgentEvent.cursor (recordEvents s.spool)
        (s.handed ++ hooks [msg]) := by
      cases hm : msg.hook with
      | none => simpa [hooks, hm] using h.gapless
      | some e =>
        have hone : hooks [msg] = [e] := by simp [hooks, hm]
        obtain ⟨hlog, hbefore⟩ := hsteps.hand msg rfl e hm
        exact hone ▸ .concat h.gapless hlog hbefore
    refine { h with
      serve := ⟨p', hp'.mono fun e he => ?_⟩
      acked := fun e he hle => List.mem_append_left _ (h.acked e he hle)
      gapless := hgap
      queue := ?_ }
    · rcases he with he | ⟨msg', heq, he⟩
      · exact List.mem_append_left _ he
      · cases heq
        exact List.mem_append_right _ (hmem e he)
    · change s.handed ++ hooks [msg] = s.applied ++ hooks (s.queue ++ [msg])
      rw [hooks_append, ← List.append_assoc, ← h.queue]
  | store offset =>
    obtain ⟨htop, hacked⟩ := hsteps.store offset rfl
    exact { h with
      serve := ⟨p', hp'.mono fun e he => he.resolve_right (by simp)⟩
      top := htop
      acked := hacked }

theorem Inv.restart (h : s.Inv host) (zellij : Bool) (rules : CompiledRules) :
    Inv host (s.restart zellij rules) :=
  { h with serve := ⟨s.ack, .new h.acked h.top⟩ }

/-- A message changes no other agent's offset, and its own only if it passes. -/
theorem Inv.applyMsg (h : s.Inv host) {msg : ProbeMsg} {queue : List ProbeMsg} {nowMs : ℕ}
    (hq : s.queue = msg :: queue) : Inv host (s.applyMsg host msg queue nowMs) := by
  have hqueue : s.handed = s.applied ++ hooks [msg] ++ hooks queue := by
    rw [h.queue, hq, List.append_assoc, ← hooks_append, List.singleton_append]
  have hget : ∀ key, (s.applyMsg host msg queue nowMs).monitor.tracker.get key =
      Monitor.onMsg s.monitor.tracker.cfg key host msg nowMs (s.monitor.tracker.get key) :=
    fun key => Monitor.get_apply s.monitor host nowMs (.msg msg) key
  cases hm : msg.hook with
  | none =>
    have hnone : hooks [msg] = [] := by simp [hooks, hm]
    refine { h with queue := hqueue, accepted := fun key => ?_, offset := fun key hk => ?_ }
    · simpa [Relay.applyMsg, hnone] using h.accepted key
    · have hother : ∀ ev, msg.hook = some ev → AgentKey.fromEvent host ev ≠ key :=
        fun ev he => by cases hm.symm.trans he
      rw [hget, lastHookOffset_onMsg hother, h.offset key hk]
      simp [Relay.applyMsg, hnone]
  | some ev =>
    have hone : hooks [msg] = [ev] := by simp [hooks, hm]
    have hev : ev ∈ recordEvents s.spool := h.gapless.subset (by simp [hqueue, hone])
    obtain ⟨hsource, hcursor, -⟩ := mem_recordEvents hev
    obtain rfl : msg = .agentEvent ev := ProbeMsg.eq_of_hook hm
    have hpasses := passes_iff h hev
    have hacc : ∀ key, ofKey host key (s.applyMsg host (.agentEvent ev) queue nowMs).accepted =
        if AgentKey.fromEvent host ev = key ∧ passes s.monitor.tracker host ev then
          ofKey host key s.accepted ++ [ev]
        else ofKey host key s.accepted := by
      intro key
      simp only [Relay.applyMsg, hone, ofKey_append]
      by_cases hk : AgentKey.fromEvent host ev = key
      · by_cases hp : passes s.monitor.tracker host ev
        · rw [List.filter_cons_of_pos hp, List.filter_nil, ofKey_single hk, if_pos ⟨hk, hp⟩]
        · rw [List.filter_cons_of_neg hp, List.filter_nil, if_neg fun hc => hp hc.2]
          exact List.append_nil _
      · rw [if_neg fun hc => hk hc.1]
        cases hp : passes s.monitor.tracker host ev
        · rw [List.filter_cons_of_neg (by simp [hp]), List.filter_nil]
          exact List.append_nil _
        · rw [List.filter_cons_of_pos hp, List.filter_nil, ofKey_single_ne hk, List.append_nil]
    refine { h with queue := hqueue, accepted := fun key => ?_, offset := fun key hk => ?_ }
    · rw [hacc]
      simp only [Relay.applyMsg, hone, ofKey_append]
      by_cases hk : AgentKey.fromEvent host ev = key
      · subst hk
        rw [ofKey_single rfl, Replay.accepted_concat, ← h.accepted, Replay.take, hpasses]
        cases (ofKey host (.fromEvent host ev) s.accepted).getLast?.any (ev.cursor ≤ ·.cursor) <;>
          simp
      · rw [if_neg fun hc => hk hc.1, ofKey_single_ne hk, List.append_nil, h.accepted key]
    · rw [hget, hacc]
      by_cases hkey : AgentKey.fromEvent host ev = key
      · subst hkey
        rw [lastHookOffset_hook hsource hcursor rfl, h.offset _ rfl]
        have hp : passes s.monitor.tracker host ev = !((s.monitor.tracker.get
            (.fromEvent host ev)).getD (.initial (.fromEvent host ev) ev)).staleHook ev := rfl
        rw [hp]
        cases ((s.monitor.tracker.get (.fromEvent host ev)).getD
          (.initial (.fromEvent host ev) ev)).staleHook ev <;> simp
      · have hne : ∀ ev', (ProbeMsg.agentEvent ev).hook = some ev' →
            AgentKey.fromEvent host ev' ≠ key := fun ev' he => by
          cases hm.symm.trans he
          exact hkey
        rw [lastHookOffset_onMsg hne, h.offset key hk, if_neg fun hc => hkey hc.1]

theorem Inv.step (h : s.Inv host) (hs : Step lib host s s') : s'.Inv host := by
  cases hs with
  | append hx => exact h.append hx
  | serve hs => exact h.serveStep hs
  | apply hq => exact h.applyMsg hq
  | @other id ev nowMs hid =>
    refine { h with offset := fun key hk => ?_ }
    have hsame := Monitor.get_apply s.monitor id nowMs ev key
    rw [hsame, lastHookOffset_other hk hid, h.offset key hk]
  | @acknowledge k =>
    refine { h with offset := fun key hk => ?_ }
    rw [Monitor.get_acknowledge, ← h.offset key hk]
    split_ifs
    · cases s.monitor.tracker.get key <;> rfl
    · rfl
  | restart => exact h.restart _ _

theorem Reachable.inv (h : Reachable lib host s) : s.Inv host := by
  obtain ⟨zellij, rules, cfg, h⟩ := h
  induction h with
  | refl => exact inv_start zellij rules cfg
  | tail _ hs ih => exact ih.step hs

theorem Inv.gapless_ofKey (h : s.Inv host) (key : AgentKey) :
    Replay.Gapless AgentEvent.cursor (ofKey host key (recordEvents s.spool))
      (ofKey host key s.applied) :=
  Replay.Gapless.filter (Replay.Gapless.of_append (h.queue ▸ h.gapless)) _

/-- Everything is handed on before it counts as delivered, and the tracker accepts the
events of each agent once, in the order of the spool and without gaps: all of them when
the serve has caught up. -/
theorem delivery (h : Reachable lib host s) :
    (∀ ev ∈ recordEvents s.spool, ev.cursor ≤ s.ack → ev ∈ s.handed) ∧
    s.handed = s.applied ++ hooks s.queue ∧
    (∀ key, ofKey host key s.accepted <+: ofKey host key (recordEvents s.spool) ∧
      ∀ ev ∈ ofKey host key s.applied, ev ∈ ofKey host key s.accepted) ∧
    (s.queue = [] → s.serve.toApp = [] → s.serve.server.readCursor = s.spool.top →
      ∀ key, ofKey host key s.accepted = ofKey host key (recordEvents s.spool)) := by
  have h := h.inv
  have hsorted : ∀ key, (ofKey host key (recordEvents s.spool)).Pairwise (·.cursor < ·.cursor) :=
    fun key => (recordEvents_sorted h.sorted).filter _
  refine ⟨h.acked, h.queue, fun key => ⟨?_, fun ev hev => ?_⟩, fun hq ht hr key => ?_⟩
  · rw [h.accepted]
    exact Replay.accepted_prefix (hsorted key) (h.gapless_ofKey key)
  · rw [h.accepted]
    exact (Replay.mem_accepted (hsorted key) (h.gapless_ofKey key)).mpr hev
  · obtain ⟨p, hp⟩ := h.serve
    have hall : ∀ ev ∈ recordEvents s.spool, ev ∈ s.applied := by
      intro ev hev
      have hhanded : ev ∈ s.handed := by
        rcases Nat.lt_or_ge p ev.cursor with hlt | hge
        · have hin := mem_window.mpr ⟨hev, hlt, hr ▸ cursor_le_top h.sorted hev⟩
          rw [← hp.toApp, ht] at hin
          cases hin
        · exact hp.relayed ev hev hge
      rw [h.queue, hq] at hhanded
      simpa [hooks] using hhanded
    rw [h.accepted, Replay.accepted_eq (hsorted key) (h.gapless_ofKey key)]
    refine List.filter_eq_self.mpr fun ev hev => decide_eq_true ?_
    obtain ⟨hev, hk⟩ := List.mem_filter.mp hev
    exact List.mem_filter.mpr ⟨hall ev hev, hk⟩

/-- One record is handed on by two serves and accepted once. -/
theorem delivery_restarted : ∃ s : Relay, s.handed.length = 2 ∧ s.applied.length = 2 ∧
    (ofKey "host" ⟨"host", "work", 1⟩ s.accepted).length = 1 := by
  let lib : ScrapeLib := ⟨fun _ => .error "", String.length⟩
  let r : SpoolRecord := ⟨5, "claude", "work", 1, .obj [("hook_event_name", .str "Stop")]⟩
  let a : TickAnswers := ⟨.ok 0, .ok ⟨[(1, r)], 0, 1⟩, .ok [], fun _ => .ok [], fun _ => .ok ""⟩
  let ev : AgentEvent := ⟨⟨"work", 1⟩, "claude", .hook, .done, none, 5, some 1⟩
  let read : Serve := ⟨((Server.new false 0 ⟨[]⟩).tick lib 7 a).1, [.agentEvent ev], [], none⟩
  let relayed : Serve := ⟨read.server, [], [], some 1⟩
  let s₀ : Relay := { start false ⟨[]⟩ .default with spool := [(1, r)] }
  -- From a new serve the record is read and handed on.
  have hserve : ∀ s : Relay, s.spool = [(1, r)] → s.serve = .new false ⟨[]⟩ 0 →
      Reachable lib "host" s →
      Reachable lib "host" (s.afterServe relayed (.hand (.agentEvent ev))) := by
    rintro s hspool hserve ⟨zellij, rules, cfg, hs⟩
    have hreads : ∀ rd, a.read = .ok rd → s.spool.Reads s.serve.server.readCursor rd := by
      rintro _ ⟨⟩
      rw [hspool, hserve]
      exact ⟨by decide, .inr (by decide), by rfl⟩
    have htick : Serve.Step lib s.spool s.serve .silent read := by
      have htick : Serve.Step lib s.spool s.serve .silent { s.serve with
          server := (s.serve.server.tick lib 7 a).1
          toApp := s.serve.toApp ++ (s.serve.server.tick lib 7 a).2 } := .tick hreads
      rw [hserve] at htick ⊢
      exact htick
    have hrelay : Step lib "host" (s.afterServe read .silent)
        ((s.afterServe read .silent).afterServe relayed (.hand (.agentEvent ev))) :=
      .serve (.relay rfl rfl)
    exact ⟨zellij, rules, cfg, (hs.tail (.serve htick)).tail hrelay⟩
  have h₀ : Reachable lib "host" s₀ :=
    ⟨false, ⟨[]⟩, .default, .tail .refl (.append (by decide))⟩
  have hrestart : ∀ s : Relay, Step lib "host" s (s.restart false ⟨[]⟩) := fun _ => .restart
  obtain ⟨zellij, rules, cfg, h₁⟩ := hserve s₀ rfl rfl h₀
  obtain ⟨zellij, rules, cfg, h₂⟩ := hserve _ rfl rfl
    ⟨zellij, rules, cfg, h₁.tail (hrestart _)⟩
  have happly : ∀ s : Relay, ∀ msg queue, s.queue = msg :: queue →
      Step lib "host" s (s.applyMsg "host" msg queue 9) := fun _ _ _ => .apply
  have h₃ := (h₂.tail (happly _ _ _ rfl)).tail (happly _ _ _ rfl)
  have hall := (delivery ⟨zellij, rules, cfg, h₃⟩).2.2.2 rfl rfl rfl ⟨"host", "work", 1⟩
  exact ⟨_, rfl, rfl, by rw [hall]; rfl⟩

end Relay

end MultiAi
