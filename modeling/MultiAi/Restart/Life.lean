import MultiAi.Restart.Record

/-! # The life of a server

What a monitor has seen of a server and of the user, up to the moment the server is
replaced: of every hook record the server read, the monitor knows the offset.
-/

namespace MultiAi

open Machine Server

/-- The hook records an input brings. -/
def Server.Input.records : Input → List (ℕ × SpoolRecord)
  | .tick _ a =>
    match a.read with
    | .ok read => read.records
    | .error _ => []
  | .app .. => []

/-- A server and the monitor it reports to, after it read some records: every message was
applied in order, and between them the user saw agents and other hosts told things. -/
inductive Life (lib : ScrapeLib) (host : String) (s₀ : Server) (cfg : TrackerConfig) :
    List (ℕ × SpoolRecord) → Server → Monitor → Prop
  | start : Life lib host s₀ cfg [] s₀ (.new cfg)
  | step {read : List (ℕ × SpoolRecord)} {s : Server} {m : Monitor} {i : Input}
      {msgs : List (ProbeMsg × ℕ)} : Life lib host s₀ cfg read s m →
      msgs.map Prod.fst = (s.step lib i).2 →
      Life lib host s₀ cfg (read ++ i.records) (s.step lib i).1 (run (Monitor.take host) m msgs)
  | acknowledge {read : List (ℕ × SpoolRecord)} {s : Server} {m : Monitor} {key : AgentKey} :
      Life lib host s₀ cfg read s m → Life lib host s₀ cfg read s (m.acknowledge key).1
  | other {read : List (ℕ × SpoolRecord)} {s : Server} {m : Monitor} {id : String} {ev : HostEvent}
      {nowMs : ℕ} : Life lib host s₀ cfg read s m → id ≠ host ∨ (∀ msg, ev ≠ .msg msg) →
      Life lib host s₀ cfg read s (m.apply id ev nowMs).1

namespace Monitor

variable {m : Monitor} {host : String} {p : PaneRef} {c : ℕ}

/-- A hook event at this offset is no news of the pane. -/
def Past (host : String) (p : PaneRef) (c : ℕ) (m : Monitor) : Prop :=
  (m.offset (p.key host)).any (c ≤ ·)

theorem past_congr {m' : Monitor} (h : m'.offset (p.key host) = m.offset (p.key host))
    (hp : m.Past host p c) : m'.Past host p c := by
  rwa [Past, h]

/-- After a hook event its offset is past. -/
theorem past_event {ev : AgentEvent} {nowMs : ℕ} (hs : ev.source = .hook)
    (ho : ev.spoolOffset = some ev.cursor) (hp : ev.pane = p) :
    (m.take host (.agentEvent ev, nowMs)).1.Past host p ev.cursor := by
  rw [Past, offset, get_take, Relay.lastHookOffset_hook hs ho (PaneRef.key_inj.mpr hp)]
  split_ifs with hstale
  · rw [AgentRecord.staleHook, ho, Relay.entry_lastHookOffset] at hstale
    exact hstale
  · exact decide_eq_true (le_refl ev.cursor)

/-- No message brings a past offset back. -/
theorem Past.take (h : m.Past host p c) {msg : ProbeMsg × ℕ}
    (hmsg : ∀ ev, msg.1.hook = some ev → ev.spoolOffset = some ev.cursor) :
    (m.take host msg).1.Past host p c := by
  by_cases hev : ∃ ev, msg.1.hook = some ev ∧ ev.pane = p
  · obtain ⟨ev, hhook, hp⟩ := hev
    obtain ⟨msg, nowMs⟩ := msg
    obtain rfl : msg = .agentEvent ev := ProbeMsg.eq_of_hook hhook
    have hs : ev.source = .hook := by
      by_contra hs
      simp [ProbeMsg.hook, hs] at hhook
    have ho := hmsg ev hhook
    rw [Past, offset, get_take, Relay.lastHookOffset_hook hs ho (PaneRef.key_inj.mpr hp)]
    split_ifs with hstale
    · exact h
    · rw [AgentRecord.staleHook, ho, Relay.entry_lastHookOffset] at hstale
      have hlast : ((m.tracker.get (p.key host)).bind (·.lastHookOffset)).any (c ≤ ·) := h
      generalize (m.tracker.get (p.key host)).bind (·.lastHookOffset) = last at hstale hlast
      cases last with
      | none => cases hlast
      | some o =>
        simp only [Option.any_some, decide_eq_true_eq] at hstale hlast
        exact decide_eq_true (by omega)
  · refine past_congr ?_ h
    rw [offset, get_take]
    refine Relay.lastHookOffset_onMsg fun ev hhook hk => hev ⟨ev, hhook, ?_⟩
    exact PaneRef.key_inj.mp hk

theorem Past.run {msgs : List (ProbeMsg × ℕ)} (h : m.Past host p c)
    (hmsgs : ∀ msg ∈ msgs, ∀ ev, msg.1.hook = some ev → ev.spoolOffset = some ev.cursor) :
    (run (Monitor.take host) m msgs).Past host p c :=
  run_invariant (fun _ _ h hmsg => h.take hmsg) h hmsgs

theorem past_run {msgs : List (ProbeMsg × ℕ)} {ev : AgentEvent} (hs : ev.source = .hook)
    (hp : ev.pane = p)
    (hmsgs : ∀ msg ∈ msgs, ∀ ev, msg.1.hook = some ev → ev.spoolOffset = some ev.cursor)
    (hev : .agentEvent ev ∈ msgs.map Prod.fst) :
    (run (Monitor.take host) m msgs).Past host p ev.cursor := by
  obtain ⟨⟨msg, nowMs⟩, hmem, rfl⟩ := List.mem_map.mp hev
  obtain ⟨before, after, rfl⟩ := List.append_of_mem hmem
  have ho : ev.spoolOffset = some ev.cursor := hmsgs _ hmem ev (by simp [ProbeMsg.hook, hs])
  rw [run_append, run_cons]
  exact (past_event hs ho hp).run fun msg hm => hmsgs msg (by simp [hm])

end Monitor

section Offsets

variable {lib : ScrapeLib} {host : String} {s₀ s : Server} {cfg : TrackerConfig} {m : Monitor}
  {read : List (ℕ × SpoolRecord)}

/-- Hook events are told with the offsets of their records. -/
theorem offset_of_step {i : Input} {msg : ProbeMsg} (hm : msg ∈ (s.step lib i).2) {ev : AgentEvent}
    (hev : msg.hook = some ev) : ev.spoolOffset = some ev.cursor := by
  obtain rfl := ProbeMsg.eq_of_hook hev
  cases i with
  | tick nowMs a =>
    have hmem : ev ∈ hooks (s.tick lib nowMs a).2 := List.mem_filterMap.mpr ⟨_, hm, hev⟩
    rw [hooks_tick] at hmem
    split at hmem
    · exact (mem_recordEvents hmem).2.1
    · cases hmem
  | app b msg =>
    obtain ⟨code, text, he⟩ := handle_tells lib s b msg _ hm
    cases he

/-- The event of a record that an input brings is told. -/
theorem told_of_records {i : Input} {ev : AgentEvent} (hev : ev ∈ recordEvents i.records) :
    .agentEvent ev ∈ (s.step lib i).2 := by
  have hs := (mem_recordEvents hev).1
  cases i with
  | tick nowMs a =>
    have hmem : ev ∈ hooks (s.tick lib nowMs a).2 := by
      rw [hooks_tick]
      cases hread : a.read with
      | ok read =>
        simp only [Input.records, hread] at hev
        exact hev
      | error e =>
        simp only [Input.records, hread] at hev
        cases hev
    obtain ⟨msg, hm, he⟩ := List.mem_filterMap.mp hmem
    obtain rfl := ProbeMsg.eq_of_hook he
    exact hm
  | app b msg => cases hev

/-- The monitor knows the offset of every event the server read. -/
theorem Life.past (h : Life lib host s₀ cfg read s m) {ev : AgentEvent}
    (hev : ev ∈ recordEvents read) : m.Past host ev.pane ev.cursor := by
  induction h with
  | start => cases hev
  | @step read s m i msgs _ hm ih =>
    have hmsgs : ∀ msg ∈ msgs, ∀ ev, msg.1.hook = some ev → ev.spoolOffset = some ev.cursor :=
      fun msg hmem ev he => offset_of_step (hm ▸ List.mem_map_of_mem hmem) he
    rw [recordEvents_append] at hev
    rcases List.mem_append.mp hev with hold | hnew
    · exact (ih hold).run hmsgs
    · refine Monitor.past_run (mem_recordEvents hnew).1 rfl hmsgs ?_
      rw [hm]
      exact told_of_records hnew
  | @acknowledge read s m key _ ih =>
    refine Monitor.past_congr ?_ (ih hev)
    rw [Monitor.offset, Monitor.get_acknowledge]
    split_ifs
    · rw [Monitor.offset]
      cases m.tracker.get (ev.pane.key host) <;> rfl
    · rfl
  | @other read s m id e nowMs _ hother ih =>
    refine Monitor.past_congr ?_ (ih hev)
    rw [Monitor.offset, Monitor.get_apply]
    exact Relay.lastHookOffset_other rfl hother

/-- What is read again is seen by the record of its agent. -/
theorem Life.seen (h : Life lib host s₀ cfg read s m) {p : PaneRef} {r : AgentRecord}
    (hr : m.tracker.get (p.key host) = some r) {records : List (ℕ × SpoolRecord)}
    (hrecords : records ⊆ read) {ev : AgentEvent} (hev : ev ∈ recordEvents records)
    (hp : ev.pane = p) : r.Seen ev := by
  have hread : ev ∈ recordEvents read := by
    obtain ⟨x, hx, he⟩ := List.mem_filterMap.mp hev
    exact List.mem_filterMap.mpr ⟨x, hrecords hx, he⟩
  have hpast := h.past hread
  rw [hp, Monitor.Past, Monitor.offset, hr] at hpast
  exact ⟨ev.cursor, (mem_recordEvents hev).2.1, hpast⟩

end Offsets

end MultiAi
