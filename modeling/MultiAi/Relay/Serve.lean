import MultiAi.Probe.Server
import MultiAi.Probe.SpoolChain
import Mathlib.Data.List.Sort

/-! # One serve of a probe

A server, the host task that relays its messages to the monitor, and the two
channels between them. Hook events are acknowledged once they have been handed on.
-/

namespace MultiAi

open Spool

/-- The records of a spool with their cursors, in order. -/
abbrev SpoolLog := List (ℕ × SpoolRecord)

namespace SpoolLog

def Sorted (spool : SpoolLog) : Prop := spool.Pairwise (·.1 < ·.1)

/-- The cursor of the last record; 0 when there is none. -/
def top (spool : SpoolLog) : ℕ := lastCursor 0 spool

/-- What a read after `cursor` may return: everything up to some record. -/
structure Reads (spool : SpoolLog) (cursor : ℕ) (r : ReadResult) : Prop where
  le : cursor ≤ r.endCursor
  top : r.endCursor = cursor ∨ r.endCursor ≤ spool.top
  records : r.records = spool.filter fun x => cursor < x.1 ∧ x.1 ≤ r.endCursor

end SpoolLog

/-- The cursor of a hook event. -/
def AgentEvent.cursor (ev : AgentEvent) : ℕ := ev.spoolOffset.getD 0

def ProbeMsg.isEvent : ProbeMsg → Bool
  | .agentEvent _ => true
  | _ => false

def AppMsg.isAck : AppMsg → Bool
  | .ack _ => true
  | _ => false

structure Serve where
  server : Server
  toApp : List ProbeMsg
  toProbe : List AppMsg
  /-- The offset of the message just handed on, not acknowledged yet. -/
  pendingAck : Option ℕ

/-- The events with a cursor past `p` and up to `q`. -/
def window (p q : ℕ) (evs : List AgentEvent) : List AgentEvent :=
  evs.filter fun ev => p < ev.cursor ∧ ev.cursor ≤ q

/-- What a step of a serve does to its surroundings. -/
inductive ServeEvent
  | silent
  /-- A message is handed to the monitor. -/
  | hand (msg : ProbeMsg)
  /-- The probe stores an acknowledged offset. -/
  | store (offset : ℕ)

namespace Serve

/-- A new serve reads after the stored offset. -/
def new (zellij : Bool) (rules : CompiledRules) (ack : ℕ) : Serve :=
  ⟨.new zellij ack rules, [], [], none⟩

def stored : Option ℕ → ServeEvent
  | some offset => .store offset
  | none => .silent

variable (lib : ScrapeLib) (spool : SpoolLog)

inductive Step : Serve → ServeEvent → Serve → Prop
  | tick {l : Serve} {nowMs : ℕ} {a : TickAnswers} :
      (∀ r, a.read = .ok r → spool.Reads l.server.readCursor r) →
      Step l .silent { l with
        server := (l.server.tick lib nowMs a).1
        toApp := l.toApp ++ (l.server.tick lib nowMs a).2 }
  /-- The hello, heartbeats and metrics of the probe. -/
  | chatter {l : Serve} {msg : ProbeMsg} : msg.isEvent = false →
      Step l .silent { l with toApp := l.toApp ++ [msg] }
  | relay {l : Serve} {msg : ProbeMsg} {toApp : List ProbeMsg} : l.toApp = msg :: toApp →
      l.pendingAck = none →
      Step l (.hand msg) { l with toApp := toApp, pendingAck := msg.ack }
  | sendAck {l : Serve} {offset : ℕ} : l.pendingAck = some offset →
      Step l .silent { l with toProbe := l.toProbe ++ [.ack offset], pendingAck := none }
  /-- The app sends a command of the user. -/
  | command {l : Serve} {msg : AppMsg} : msg.isAck = false → l.pendingAck = none →
      Step l .silent { l with toProbe := l.toProbe ++ [msg] }
  | handle {l : Serve} {msg : AppMsg} {toProbe : List AppMsg} {a : Server.HandleAnswers} :
      l.toProbe = msg :: toProbe →
      Step l (stored (l.server.handle lib a msg).2.1) { l with
        server := (l.server.handle lib a msg).1
        toApp := l.toApp ++ (l.server.handle lib a msg).2.2
        toProbe := toProbe }

/-- A serve that has relayed every event up to `p`: what it acknowledges lies
before `p`, and what lies between `p` and the read cursor is on its way. -/
structure Inv (spool : SpoolLog) (handed : AgentEvent → Prop) (l : Serve) (p : ℕ) : Prop where
  relayed : ∀ ev ∈ recordEvents spool, ev.cursor ≤ p → handed ev
  pendingAck : ∀ offset, l.pendingAck = some offset → offset ≤ p
  toProbe : ∀ offset, .ack offset ∈ l.toProbe → offset ≤ p
  le : p ≤ l.server.readCursor
  top : l.server.readCursor ≤ spool.top
  toApp : hooks l.toApp = window p l.server.readCursor (recordEvents spool)
  acks : ∀ msg ∈ l.toApp, msg.AckedByHook

end Serve

section Events

variable {spool : SpoolLog}

theorem recordEvents_append (spool spool' : SpoolLog) :
    recordEvents (spool ++ spool') = recordEvents spool ++ recordEvents spool' :=
  List.filterMap_append

theorem mem_recordEvents {ev : AgentEvent} (h : ev ∈ recordEvents spool) :
    ev.source = .hook ∧ ev.spoolOffset = some ev.cursor ∧ ∃ r, (ev.cursor, r) ∈ spool ∧
      r.event ev.cursor = some ev := by
  obtain ⟨⟨cursor, r⟩, hmem, he⟩ := List.mem_filterMap.mp h
  obtain ⟨hs, ho⟩ := r.event_spoolOffset he
  have hc : ev.cursor = cursor := by rw [AgentEvent.cursor, ho, Option.getD_some]
  exact ⟨hs, ho.trans (congrArg some hc.symm), r, hc ▸ hmem, hc ▸ he⟩

theorem recordEvents_cons (cursor : ℕ) (r : SpoolRecord) :
    recordEvents ((cursor, r) :: spool) = (r.event cursor).toList ++ recordEvents spool := by
  cases h : r.event cursor <;> simp [recordEvents, h]

theorem recordEvents_filter (p : ℕ → Prop) [DecidablePred p] :
    recordEvents (spool.filter fun x => p x.1) = (recordEvents spool).filter fun ev => p ev.cursor := by
  induction spool with
  | nil => rfl
  | cons x spool ih =>
    obtain ⟨cursor, r⟩ := x
    have hev : ∀ ev ∈ (r.event cursor).toList, ev.cursor = cursor := fun ev he => by
      rw [AgentEvent.cursor, (r.event_spoolOffset (Option.mem_toList.mp he)).2, Option.getD_some]
    rw [recordEvents_cons, List.filter_append, ← ih]
    by_cases hp : p cursor
    · have hself : (r.event cursor).toList.filter (fun ev => p ev.cursor) =
          (r.event cursor).toList :=
        List.filter_eq_self.mpr fun ev he => by simpa [hev ev he] using hp
      rw [List.filter_cons_of_pos (by simpa using hp), recordEvents_cons, hself]
    · have hnone : (r.event cursor).toList.filter (fun ev => p ev.cursor) = [] :=
        List.filter_eq_nil_iff.mpr fun ev he => by simpa [hev ev he] using hp
      rw [List.filter_cons_of_neg (by simpa using hp), hnone, List.nil_append]

theorem recordEvents_sorted (h : spool.Sorted) :
    (recordEvents spool).Pairwise (·.cursor < ·.cursor) := by
  refine h.filterMap _ fun x y hxy ev he ev' he' => ?_
  rw [AgentEvent.cursor, AgentEvent.cursor, (x.2.event_spoolOffset he).2,
    (y.2.event_spoolOffset he').2]
  exact hxy

theorem window_empty {p q : ℕ} (h : q ≤ p) (evs : List AgentEvent) : window p q evs = [] := by
  refine List.filter_eq_nil_iff.mpr fun ev _ hc => ?_
  have hc := of_decide_eq_true hc
  omega

theorem mem_window {p q : ℕ} {evs : List AgentEvent} {ev : AgentEvent} :
    ev ∈ window p q evs ↔ ev ∈ evs ∧ p < ev.cursor ∧ ev.cursor ≤ q := by
  rw [window, List.mem_filter, decide_eq_true_eq]

theorem window_append {p q q' : ℕ} {evs : List AgentEvent}
    (h : evs.Pairwise (·.cursor < ·.cursor)) (hp : p ≤ q) (hq : q ≤ q') :
    window p q evs ++ window q q' evs = window p q' evs := by
  have hs : (window p q evs ++ window q q' evs).Pairwise (·.cursor < ·.cursor) := by
    refine List.pairwise_append.mpr ⟨h.filter _, h.filter _, fun a ha b hb => ?_⟩
    exact (mem_window.mp ha).2.2.trans_lt (mem_window.mp hb).2.1
  refine List.Pairwise.eq_of_mem_iff hs (h.filter _) fun ev => ?_
  simp only [List.mem_append, mem_window]
  constructor
  · rintro (⟨he, h₁, h₂⟩ | ⟨he, h₁, h₂⟩)
    · exact ⟨he, h₁, h₂.trans hq⟩
    · exact ⟨he, hp.trans_lt h₁, h₂⟩
  · rintro ⟨he, h₁, h₂⟩
    rcases Nat.lt_or_ge q ev.cursor with hlt | hge
    · exact .inr ⟨he, hlt, h₂⟩
    · exact .inl ⟨he, h₁, hge⟩

/-- The first event of a window, and the window behind it. -/
theorem window_eq_cons {p q : ℕ} {evs rest : List AgentEvent} {e : AgentEvent}
    (h : evs.Pairwise (·.cursor < ·.cursor)) (hw : window p q evs = e :: rest) :
    (e ∈ evs ∧ p < e.cursor ∧ e.cursor ≤ q) ∧
      (∀ e' ∈ evs, e'.cursor ≤ e.cursor → e'.cursor ≤ p ∨ e' = e) ∧
      rest = window e.cursor q evs := by
  have he : e ∈ window p q evs := hw ▸ List.mem_cons_self
  have hsorted : (e :: rest).Pairwise (·.cursor < ·.cursor) := hw ▸ h.filter _
  obtain ⟨hfirst, hrest⟩ := List.pairwise_cons.mp hsorted
  have hbefore : ∀ e' ∈ evs, e'.cursor ≤ e.cursor → e'.cursor ≤ p ∨ e' = e := by
    intro e' he' hle
    rcases Nat.lt_or_ge p e'.cursor with hlt | hge
    · have hin : e' ∈ e :: rest := hw ▸ mem_window.mpr ⟨he', hlt, hle.trans (mem_window.mp he).2.2⟩
      rcases List.mem_cons.mp hin with heq | hin
      · exact .inr heq
      · exact absurd (hfirst e' hin) (Nat.not_lt_of_le hle)
    · exact .inl hge
  refine ⟨mem_window.mp he, hbefore, ?_⟩
  refine List.Pairwise.eq_of_mem_iff hrest (h.filter _) fun e' => ?_
  rw [mem_window]
  constructor
  · intro hin
    obtain ⟨h₁, -, h₂⟩ := mem_window.mp (hw ▸ List.mem_cons_of_mem e hin)
    exact ⟨h₁, hfirst e' hin, h₂⟩
  · rintro ⟨h₁, h₂, h₃⟩
    have hin : e' ∈ e :: rest := hw ▸ mem_window.mpr ⟨h₁, (mem_window.mp he).2.1.trans h₂, h₃⟩
    exact (List.mem_cons.mp hin).resolve_left fun heq => absurd h₂ (heq ▸ Nat.lt_irrefl _)

theorem SpoolLog.le_top (h : spool.Sorted) {x : ℕ × SpoolRecord} (hx : x ∈ spool) :
    x.1 ≤ spool.top := le_lastCursor h hx

theorem SpoolLog.top_append (x : ℕ × SpoolRecord) : SpoolLog.top (spool ++ [x]) = x.1 := by
  simp [SpoolLog.top, lastCursor]

theorem SpoolLog.Sorted.append (h : spool.Sorted) {x : ℕ × SpoolRecord} (hx : spool.top < x.1) :
    SpoolLog.Sorted (spool ++ [x]) := by
  refine List.pairwise_append.mpr ⟨h, List.pairwise_singleton _ _, fun y hy z hz => ?_⟩
  rw [List.mem_singleton.mp hz]
  exact (SpoolLog.le_top h hy).trans_lt hx

theorem cursor_le_top (h : spool.Sorted) {ev : AgentEvent} (he : ev ∈ recordEvents spool) :
    ev.cursor ≤ spool.top := by
  obtain ⟨-, -, r, hr, -⟩ := mem_recordEvents he
  exact SpoolLog.le_top h hr

/-- A read of the day files returns what a serve may read, as long as no record is
appended behind another. -/
theorem SpoolLog.Reads.of_exact {rd : Read} (h : spool.Sorted) (hr : History.Exact spool rd)
    (hend : rd.result.endCursor = lastCursor rd.cursor rd.result.records) :
    spool.Reads rd.cursor rd.result where
  le := hr.le
  top := by
    rw [hend]
    rcases lastCursor_cases rd.cursor rd.result.records with ⟨-, he⟩ | ⟨e, hmem, he⟩
    · exact .inl he
    · exact .inr (he ▸ SpoolLog.le_top h ((hr.mem e).mp hmem).1)
  records := by
    refine List.Pairwise.eq_of_mem_iff hr.sorted (h.filter _) fun x => ?_
    rw [hr.mem, List.mem_filter, decide_eq_true_eq]

end Events

namespace Serve

variable {lib : ScrapeLib} {spool : SpoolLog} {handed handed' : AgentEvent → Prop} {l l' : Serve}
  {p : ℕ} {ev : ServeEvent}

theorem Inv.mono (h : l.Inv spool handed p) (hh : ∀ ev, handed ev → handed' ev) :
    l.Inv spool handed' p :=
  { h with relayed := fun ev he hp => hh ev (h.relayed ev he hp) }

/-- A serve starts with everything up to the stored offset handed on. -/
theorem Inv.new {zellij : Bool} {rules : CompiledRules} {ack : ℕ}
    (hack : ∀ ev ∈ recordEvents spool, ev.cursor ≤ ack → handed ev) (htop : ack ≤ spool.top) :
    (Serve.new zellij rules ack).Inv spool handed ack where
  relayed := hack
  pendingAck _ h := by cases h
  toProbe _ h := by cases h
  le := Nat.le_refl ack
  top := htop
  toApp := (window_empty (Nat.le_refl ack) _).symm
  acks _ h := by cases h

theorem Inv.append (h : l.Inv spool handed p) {x : ℕ × SpoolRecord} (hx : spool.top < x.1) :
    l.Inv (spool ++ [x]) handed p := by
  have hnew : ∀ ev ∈ recordEvents [x], l.server.readCursor < ev.cursor := by
    intro ev he
    obtain ⟨-, -, r, hr, -⟩ := mem_recordEvents he
    have hc : ev.cursor = x.1 := congrArg Prod.fst (List.mem_singleton.mp hr)
    exact hc ▸ h.top.trans_lt hx
  refine ⟨fun ev he hp => ?_, h.pendingAck, h.toProbe, h.le, ?_, ?_, h.acks⟩
  · rw [recordEvents_append] at he
    rcases List.mem_append.mp he with he | he
    · exact h.relayed ev he hp
    · exact absurd (hp.trans h.le) (Nat.not_le_of_lt (hnew ev he))
  · rw [SpoolLog.top_append]
    exact h.top.trans hx.le
  · have hnone : window p l.server.readCursor (recordEvents [x]) = [] := by
      refine List.filter_eq_nil_iff.mpr fun ev he hc => ?_
      exact absurd (of_decide_eq_true hc).2 (Nat.not_le_of_lt (hnew ev he))
    rw [recordEvents_append, h.toApp, window, window, List.filter_append, ← window, ← window, hnone,
      List.append_nil]

/-- What a step does: the events handed on and the offset stored. -/
structure Steps (spool : SpoolLog) (handed : AgentEvent → Prop) (ev : ServeEvent) : Prop where
  hand : ∀ msg, ev = .hand msg → ∀ e, msg.hook = some e → e ∈ recordEvents spool ∧
    ∀ e' ∈ recordEvents spool, e'.cursor < e.cursor → handed e'
  store : ∀ offset, ev = .store offset → offset ≤ spool.top ∧
    ∀ e ∈ recordEvents spool, e.cursor ≤ offset → handed e

theorem Inv.step (hspool : spool.Sorted) (h : l.Inv spool handed p) (hs : Step lib spool l ev l') :
    Steps spool handed ev ∧ ∃ p', l'.Inv spool
      (fun e => handed e ∨ ∃ msg, ev = .hand msg ∧ msg.hook = some e) p' := by
  have hsorted := recordEvents_sorted hspool
  have hsilent : ∀ {ev : ServeEvent}, ev = .silent → Steps spool handed ev := by
    rintro _ rfl
    exact ⟨fun _ he => (by cases he), fun _ he => (by cases he)⟩
  cases hs with
  | @tick nowMs a hread =>
    refine ⟨hsilent rfl, p, ?_⟩
    have hle : l.server.readCursor ≤ (l.server.tick lib nowMs a).1.readCursor ∧
        (l.server.tick lib nowMs a).1.readCursor ≤ spool.top ∧
        hooks (l.server.tick lib nowMs a).2 = window l.server.readCursor
          (l.server.tick lib nowMs a).1.readCursor (recordEvents spool) := by
      rw [Server.readCursor_tick, Server.hooks_tick]
      cases hr : a.read with
      | error e => exact ⟨Nat.le_refl _, h.top, (window_empty (Nat.le_refl _) _).symm⟩
      | ok r =>
        have hr := hread r hr
        refine ⟨hr.le, ?_, ?_⟩
        · rcases hr.top with he | ht
          · exact he.le.trans h.top
          · exact ht
        · simp only [hr.records]
          exact recordEvents_filter fun c => l.server.readCursor < c ∧ c ≤ r.endCursor
    refine ⟨fun ev he hp => .inl (h.relayed ev he hp), h.pendingAck, h.toProbe,
      h.le.trans hle.1, hle.2.1, ?_, fun msg hm => ?_⟩
    · rw [hooks_append, h.toApp, hle.2.2]
      exact window_append hsorted h.le hle.1
    · rcases List.mem_append.mp hm with hm | hm
      · exact h.acks msg hm
      · exact Server.tick_acks _ _ _ _ msg hm
  | @chatter msg hmsg =>
    have hnone : msg.Silent := by cases msg <;> first | exact ⟨rfl, rfl⟩ | cases hmsg
    refine ⟨hsilent rfl, p, fun ev he hp => .inl (h.relayed ev he hp), h.pendingAck, h.toProbe,
      h.le, h.top, ?_, fun m hm => ?_⟩
    · have hone : hooks [msg] = [] := hooks_eq_nil (by simpa using hnone)
      rw [hooks_append, h.toApp, hone, List.append_nil]
    · rcases List.mem_append.mp hm with hm | hm
      · exact h.acks m hm
      · exact List.mem_singleton.mp hm ▸ hnone.ackedByHook
  | @relay msg toApp htoApp hack =>
    have hmsg : msg.AckedByHook := h.acks msg (htoApp ▸ List.mem_cons_self)
    have hacks : ∀ m ∈ toApp, m.AckedByHook := fun m hm =>
      h.acks m (htoApp ▸ List.mem_cons_of_mem _ hm)
    have hhooks := h.toApp
    cases hhook : msg.hook with
    | none =>
      have hrest : hooks (msg :: toApp) = hooks toApp := List.filterMap_cons_none hhook
      rw [htoApp, hrest] at hhooks
      have hsilent' : Steps spool handed (.hand msg) := by
        refine ⟨fun m hm e he => ?_, fun _ he => by cases he⟩
        cases hm
        rw [hhook] at he
        cases he
      refine ⟨hsilent', p, fun ev he hp => .inl (h.relayed ev he hp), fun o ho => ?_, h.toProbe,
        h.le, h.top, hhooks, hacks⟩
      rw [hmsg, hhook] at ho
      cases ho
    | some e =>
      have hrest : hooks (msg :: toApp) = e :: hooks toApp := List.filterMap_cons_some hhook
      rw [htoApp, hrest] at hhooks
      obtain ⟨⟨hmem, hlt, hle⟩, hbefore, hwin⟩ := window_eq_cons hsorted hhooks.symm
      have hoff := (mem_recordEvents hmem).2.1
      refine ⟨⟨fun m hm e' he' => ?_, fun _ he => by cases he⟩, e.cursor, fun ev he hp => ?_,
        fun o ho => ?_, fun o ho => (h.toProbe o ho).trans hlt.le, hle, h.top, hwin, hacks⟩
      · cases hm
        cases hhook.symm.trans he'
        refine ⟨hmem, fun e' he' hc => h.relayed e' he' ?_⟩
        exact (hbefore e' he' hc.le).resolve_right fun heq => absurd hc (heq ▸ Nat.lt_irrefl _)
      · rcases hbefore ev he hp with hle | rfl
        · exact .inl (h.relayed ev he hle)
        · exact .inr ⟨msg, rfl, hhook⟩
      · rw [hmsg, hhook, Option.bind_some, hoff] at ho
        exact (Option.some.inj ho).ge
  | @sendAck offset hack =>
    refine ⟨hsilent rfl, p, fun ev he hp => .inl (h.relayed ev he hp), fun _ ho => (by cases ho),
      fun o ho => ?_, h.le, h.top, h.toApp, h.acks⟩
    rcases List.mem_append.mp ho with ho | ho
    · exact h.toProbe o ho
    · cases List.mem_singleton.mp ho
      exact h.pendingAck offset hack
  | @command msg hmsg hack =>
    refine ⟨hsilent rfl, p, fun ev he hp => .inl (h.relayed ev he hp), h.pendingAck,
      fun o ho => ?_, h.le, h.top, h.toApp, h.acks⟩
    rcases List.mem_append.mp ho with ho | ho
    · exact h.toProbe o ho
    · rw [← List.mem_singleton.mp ho] at hmsg
      cases hmsg
  | @handle msg toProbe a htoProbe =>
    have hstore : ∀ o, stored (l.server.handle lib a msg).2.1 = .store o → msg = .ack o := by
      intro o ho
      cases msg with
      | ack offset =>
        simp only [Server.handle] at ho
        split_ifs at ho <;> cases ho
        rfl
      | setRules rules =>
        simp only [Server.handle] at ho
        split at ho <;> cases ho
      | _ => cases ho
    have hoff : ∀ o, stored (l.server.handle lib a msg).2.1 = .store o → o ≤ p := by
      intro o ho
      refine h.toProbe o ?_
      rw [htoProbe, hstore o ho]
      exact List.mem_cons_self
    refine ⟨⟨fun m hm => ?_, fun o ho => ⟨?_, fun e he hc => ?_⟩⟩, p, fun ev he hp => .inl (h.relayed ev he hp),
      h.pendingAck, fun o ho => h.toProbe o (htoProbe ▸ List.mem_cons_of_mem _ ho), ?_, ?_, ?_,
      fun m hm => ?_⟩
    · cases hso : (l.server.handle lib a msg).2.1 with
      | none => rw [hso] at hm; cases hm
      | some o => rw [hso] at hm; cases hm
    · exact (hoff o ho).trans (h.le.trans h.top)
    · exact h.relayed e he (hc.trans (hoff o ho))
    · exact (Server.readCursor_handle _ _ _ _).symm ▸ h.le
    · exact (Server.readCursor_handle _ _ _ _).symm ▸ h.top
    · rw [hooks_append, h.toApp, hooks_eq_nil (Server.handle_silent _ _ _ _), List.append_nil,
        Server.readCursor_handle]
    · rcases List.mem_append.mp hm with hm | hm
      · exact h.acks m hm
      · exact (Server.handle_silent _ _ _ _ m hm).ackedByHook

end Serve

end MultiAi
