import MultiAi.Terms.Provenance

/-! # Terminals without an owner

A caller may abandon its open, and the owner of a terminal may drop it. A terminal that is
opened for a caller that has gone has nobody to close it.
-/

namespace MultiAi.Terms

open Std

/-- A task, its command channel, and those who use it: an open is known by its reply, a terminal
by its id. -/
structure Desk where
  terms : Terms
  queue : List TermCmd
  /-- The reply of the next open. -/
  next : ℕ
  /-- The caller dropped its end of the reply. -/
  gone : ℕ → Bool
  /-- The caller took its terminal from the reply. -/
  received : ℕ → Bool
  /-- The owner dropped the terminal. -/
  dropped : ℕ → Bool

inductive Act where
  | asks (spec : AttachSpec)
  | abandons (reply : ℕ)
  | receives (id : ℕ)
  | drops (id : ℕ)
  | sends (cmd : TermCmd)
  | turns (turn : Turn)

/-- The caller has its terminal. -/
def Desk.took (s : Desk) (reply : ℕ) : Bool := s.terms.log.any fun
  | .reply reply' (.ok id) => reply' = reply && s.received id
  | _ => false

/-- The terminal is in the reply of a caller that is there. -/
def Desk.offered (s : Desk) (id : ℕ) : Bool := s.terms.log.any fun
  | .reply reply (.ok id') => id' = id && !s.gone reply
  | _ => false

/-- The channel after a turn; `none` if the turn handles other commands than those that come
next. -/
def Desk.rest (s : Desk) (turn : Turn) : Option (List TermCmd) :=
  let taken := (handledCmds (s.terms.step turn).log).drop (handledCmds s.terms.log).length
  if taken <+: s.queue then some (s.queue.drop taken.length) else none

/-- What cannot happen changes nothing. A command that is sent while a turn awaits, and that the
turn handles, is sent before it. -/
def Desk.step (s : Desk) : Act → Desk
  | .asks spec => { s with queue := s.queue ++ [.open spec s.next], next := s.next + 1 }
  | .abandons reply =>
    if s.next ≤ reply || s.took reply then s
    else { s with gone := Function.update s.gone reply true }
  | .receives id =>
    if s.offered id then { s with received := Function.update s.received id true } else s
  | .drops id =>
    if s.received id && !s.dropped id then
      { s with dropped := Function.update s.dropped id true, queue := s.queue ++ [.close id] }
    else s
  | .sends cmd =>
    match cmd with
    | .open .. | .close _ => s
    | cmd => { s with queue := s.queue ++ [cmd] }
  | .turns turn =>
    match s.rest turn with
    | some rest => { s with terms := s.terms.step turn, queue := rest }
    | none => s

def Desk.start (cfg : HostConfig) : Desk :=
  ⟨init cfg, [], 0, fun _ => false, fun _ => false, fun _ => false⟩

def Desk.run (cfg : HostConfig) (acts : List Act) : Desk := acts.foldl Desk.step (.start cfg)

/-- Once all commands are handled, every terminal has an owner; without owners the task is idle. -/
def Desk.Tidy (s : Desk) : Prop := s.terms.ended = false → s.queue = [] →
  (∀ id slot, s.terms.slot id = some slot →
    ∃ reply, .reply reply (.ok id) ∈ s.terms.log ∧ s.gone reply = false ∧ s.dropped id = false) ∧
  ((∀ reply id, .reply reply (.ok id) ∈ s.terms.log →
    s.gone reply = true ∨ s.dropped id = true) → s.terms.slots = ∅ ∧ s.terms.link = .idle)

/-- No terminal is sent to a caller that has gone, and no caller goes that was sent one and did
not take it. -/
def Desk.Met (s : Desk) : Act → Prop
  | .abandons reply => ∀ id, .reply reply (.ok id) ∈ s.terms.log → s.received id = true
  | .turns turn => ∀ rest, s.rest turn = some rest →
    ∀ reply id, .reply reply (.ok id) ∈ (s.terms.step turn).log → s.gone reply = false
  | _ => True

def Desk.AllMet (s : Desk) : List Act → Prop
  | [] => True
  | act :: acts => s.Met act ∧ (s.step act).AllMet acts

/-- A caller asks, goes, and is answered with a terminal. -/
def abandonedActs : List Act := [.asks ⟨"work", false, ⟨80, 24⟩⟩, .abandons 0,
  .turns ⟨0, .command (some (.open ⟨"work", false, ⟨80, 24⟩⟩ 0)),
    [⟨[], 5, none, some (.ok ())⟩, ⟨[], 5, none, some (.ok ())⟩], id, List.Perm.refl⟩]

theorem not_tidy_abandoned :
    ¬∀ (cfg : HostConfig) (acts : List Act), (Desk.run cfg acts).Tidy := by
  intro h
  obtain ⟨hslots, -⟩ := h ⟨"h", .localHost, none⟩ abandonedActs (by decide) (by decide)
  have hslot : ((Desk.run ⟨"h", .localHost, none⟩ abandonedActs).terms.slot 1).isSome := by decide
  have hreplies : (answers (Desk.run ⟨"h", .localHost, none⟩ abandonedActs).terms.log).map
      Prod.fst = [0] := by decide
  obtain ⟨slot, hslot⟩ := Option.isSome_iff_exists.mp hslot
  obtain ⟨reply, hreply, hgone, -⟩ := hslots 1 slot hslot
  have hmem := List.mem_map_of_mem (f := Prod.fst) (mem_answers.mpr hreply)
  rw [hreplies, List.mem_singleton] at hmem
  subst hmem
  exact absurd hgone (by decide)

/-- A terminal has a slot only when its caller was answered with it. -/
def Handed (s : Terms) : Prop := ∀ id slot, s.slot id = some slot → id ∈ granted s.log

variable {cfg : HostConfig} {s s' : Terms} {new : List TermEffect} {w : Option Wake} {fails : Prop}
  {a b : Doing × Terms}

theorem Handed.frame (h : Handed s) (hlog : s'.log = s.log ++ new)
    (hslots : ∀ id slot', s'.slot id = some slot' →
      (∃ slot, s.slot id = some slot) ∨ id ∈ granted new) : Handed s' := by
  intro id slot' hs
  rw [hlog, granted_append]
  rcases hslots id slot' hs with ⟨slot, hs⟩ | hnew
  · exact List.mem_append_left _ (h id slot hs)
  · exact List.mem_append_right _ hnew

theorem Handed.move (hm : Move fails w a b) (h : Handed a.2) : Handed b.2 := by
  cases hm with
  | waits script now => exact h
  | @stops v f s =>
    have hc := handles_doLocal s .stop
    obtain ⟨sent, hlog, -⟩ := hc.log
    refine h.frame hlog fun id slot' hs => Or.inl ?_
    obtain ⟨slot, hs, -⟩ := hc.found id slot' hs
    exact ⟨slot, hs⟩
  | @handles v f s cmd =>
    have hc := handles_doLocal s cmd
    obtain ⟨sent, hlog, -⟩ := hc.log
    refine h.frame hlog fun id slot' hs => Or.inl ?_
    obtain ⟨slot, hs, -⟩ := hc.found id slot' hs
    exact ⟨slot, hs⟩
  | takes hp => exact h.frame rfl fun id slot hs => Or.inl ⟨slot, hs⟩
  | pops hp => exact h
  | dials => exact h.frame rfl fun id slot hs => Or.inl ⟨slot, hs⟩
  | connects hd => exact h.frame rfl fun id slot hs => Or.inl ⟨slot, hs⟩
  | rests hd hup hbusy => exact h.frame rfl fun id slot hs => Or.inl ⟨slot, hs⟩
  | @loses v f s reason hf =>
    refine h.frame rfl fun id slot' hs => Or.inl ?_
    obtain ⟨slot, hold, -⟩ := slot_map_detach (s := s) rfl hs
    exact ⟨slot, hold⟩
  | attachesAgain hl hs hp => exact h.frame rfl fun id slot hs => Or.inl ⟨slot, hs⟩
  | attachesNew hl => exact h.frame (List.append_assoc ..) fun id slot hs => Or.inl ⟨slot, hs⟩
  | failsAgain hf => exact h
  | failsNew => exact h
  | @attachedAgain v s id g spec =>
    rcases attachedAgain_cases s id g spec with ⟨slot, hs, heq⟩ | ⟨hs, heq⟩
    · rw [heq]
      exact h.frame (List.append_assoc ..) fun id' slot' hs' => Or.inl (found_of_setSlot hs hs')
    · rw [heq]
      exact h.frame (List.append_assoc ..) fun id slot hs => Or.inl ⟨slot, hs⟩
  | @attachedNew reply s id spec =>
    refine h.frame (granted_log ..) fun id' slot' hs => ?_
    rw [slot_note, slot_setSlot] at hs
    split_ifs at hs with he
    · exact Or.inr (mem_granted.mpr ⟨reply, by simp [he]⟩)
    · exact Or.inl ⟨slot', hs⟩
  | refuses => exact h.frame rfl fun id slot hs => Or.inl ⟨slot, hs⟩
  | delivers hw => exact h.frame rfl fun id slot hs => Or.inl ⟨slot, hs⟩
  | exits hw => exact h.frame rfl fun id slot hs => Or.inl (drops_slots _ _ _ id slot hs)
  | givesUp hw hl hq => exact h.frame rfl fun id slot hs => Or.inl (drops_slots _ _ _ id slot hs)
  | @closes s id slot hw hl hq =>
    exact h.frame rfl fun id' slot' hs => Or.inl (found_of_setSlot hw.found hs)

theorem run_handed {turns : List Turn} (he : (run cfg turns).ended = false) :
    Handed (run cfg turns) := by
  refine (run_rule (I := fun _ s => Handed s) cfg (fun id slot hs => ?_)
    (fun _ _ _ _ => Handed.move) (fun _ h => h) turns).1 he
  cases (slot_init id cfg).symm.trans hs

/-- What holds of a task and those who use it at any time. -/
structure Desk.Sound (cfg : HostConfig) (s : Desk) : Prop where
  runs : ∃ turns, s.terms = Terms.run cfg turns
  received : ∀ id, s.received id = true → id ∈ granted s.terms.log
  closes : ∀ id, s.dropped id = true → id ∈ granted s.terms.log ∧ (.close id ∈ s.queue ∨
    ∃ pre post, s.terms.log = pre ++ .handled (.close id) :: post ∧ id ∈ granted pre)
  reached : ∀ reply id, .reply reply (.ok id) ∈ s.terms.log → s.gone reply = false

/-- What a turn takes from the command channel. -/
theorem Desk.rest_cases {s : Desk} {turn : Turn} {rest : List TermCmd}
    (hlog : (s.terms.step turn).log = s.terms.log ++ new) (h : s.rest turn = some rest) :
    s.queue = handledCmds new ++ rest := by
  have htaken : (handledCmds (s.terms.step turn).log).drop (handledCmds s.terms.log).length =
      handledCmds new := by
    rw [hlog, handledCmds_append, List.drop_left]
  simp only [Desk.rest, htaken] at h
  split_ifs at h with hpre
  obtain ⟨tail, htail⟩ := hpre
  rw [← htail, List.drop_left] at h
  cases h
  exact htail.symm

theorem Desk.Sound.turn {s : Desk} {turn : Turn} {rest : List TermCmd} (h : s.Sound cfg)
    (hrest : s.rest turn = some rest)
    (hmet : ∀ reply id, .reply reply (.ok id) ∈ (s.terms.step turn).log → s.gone reply = false) :
    Desk.Sound cfg { s with terms := s.terms.step turn, queue := rest } := by
  obtain ⟨turns, hruns⟩ := h.runs
  have hlog : ∃ new, (s.terms.step turn).log = s.terms.log ++ new := by
    cases he : s.terms.ended with
    | true => exact ⟨[], by rw [Terms.step, if_pos he, List.append_nil]⟩
    | false =>
      have hrun : (Terms.run cfg turns).ended = false := hruns ▸ he
      obtain ⟨new, hnew, -⟩ := step_served turn (hruns ▸ shaped_run hrun : s.terms.Shaped) he
      exact ⟨new, hnew⟩
  obtain ⟨new, hnew⟩ := hlog
  have hqueue := Desk.rest_cases hnew hrest
  have hgrow : ∀ id, id ∈ granted s.terms.log → id ∈ granted (s.terms.step turn).log := by
    intro id hid
    rw [hnew, granted_append]
    exact List.mem_append_left _ hid
  refine ⟨⟨turns ++ [turn], by rw [run_concat, hruns]⟩, fun id hid => hgrow id (h.received id hid),
    fun id hid => ?_, hmet⟩
  obtain ⟨hgranted, hclose⟩ := h.closes id hid
  refine ⟨hgrow id hgranted, ?_⟩
  rcases hclose with hq | ⟨pre, post, hcut, hpre⟩
  · rw [hqueue] at hq
    rcases List.mem_append.mp hq with hq | hq
    · -- The close is handled in this turn, after the terminal was handed out.
      obtain ⟨mid, post, rfl⟩ := List.append_of_mem (mem_handledCmds.mp hq)
      refine Or.inr ⟨s.terms.log ++ mid, post, by rw [hnew, List.append_assoc], ?_⟩
      rw [granted_append]
      exact List.mem_append_left _ hgranted
    · exact Or.inl hq
  · exact Or.inr ⟨pre, post ++ new, by rw [hnew, hcut]; simp, hpre⟩

theorem Desk.Sound.step {s : Desk} (h : s.Sound cfg) (act : Act) (hmet : s.Met act) :
    (s.step act).Sound cfg := by
  cases act with
  | asks spec =>
    exact ⟨h.runs, h.received, fun id hid => (h.closes id hid).imp_right
      (Or.imp_left (List.mem_append_left _)), h.reached⟩
  | abandons reply =>
    rw [Desk.step]
    split_ifs with hif
    · exact h
    · refine ⟨h.runs, h.received, h.closes, fun reply' id hreply => ?_⟩
      have hne : reply' ≠ reply := by
        rintro rfl
        refine hif (Bool.or_eq_true_iff.mpr (Or.inr (List.any_eq_true.mpr ⟨_, hreply, ?_⟩)))
        simp [hmet id hreply]
      exact (Function.update_of_ne hne ..).trans (h.reached reply' id hreply)
  | receives id =>
    rw [Desk.step]
    split_ifs with hif
    · refine ⟨h.runs, fun id' hid => ?_, h.closes, h.reached⟩
      by_cases he : id' = id
      · subst he
        obtain ⟨x, hx, hoffer⟩ := List.any_eq_true.mp hif
        split at hoffer
        · obtain ⟨rfl, -⟩ : _ ∧ _ := by simpa using hoffer
          exact mem_granted.mpr ⟨_, hx⟩
        · cases hoffer
      · exact h.received id' ((Function.update_of_ne he ..).symm.trans hid)
    · exact h
  | drops id =>
    rw [Desk.step]
    split_ifs with hif
    · rw [Bool.and_eq_true] at hif
      refine ⟨h.runs, h.received, fun id' hid => ?_, h.reached⟩
      by_cases he : id' = id
      · subst he
        exact ⟨h.received id' hif.1, Or.inl (List.mem_append_right _ (List.mem_singleton_self _))⟩
      · have hclose := h.closes id' ((Function.update_of_ne he ..).symm.trans hid)
        exact hclose.imp_right (Or.imp_left (List.mem_append_left _))
    · exact h
  | sends cmd =>
    cases cmd with
    | «open» spec reply => exact h
    | close id => exact h
    | _ =>
      exact ⟨h.runs, h.received, fun id hid => (h.closes id hid).imp_right
        (Or.imp_left (List.mem_append_left _)), h.reached⟩
  | turns turn =>
    rw [Desk.step]
    cases hrest : s.rest turn with
    | none => exact h
    | some rest => exact h.turn hrest (hmet rest hrest)

theorem start_desk (cfg : HostConfig) : (Desk.start cfg).Sound cfg :=
  ⟨⟨[], rfl⟩, nofun, nofun, nofun⟩

theorem Desk.Sound.acts {s : Desk} {acts later : List Act} (h : s.Sound cfg)
    (hmet : s.AllMet (acts ++ later)) : (acts.foldl Desk.step s).Sound cfg := by
  induction acts generalizing s with
  | nil => exact h
  | cons act acts ih => exact ih (h.step act hmet.1) hmet.2

theorem Desk.Sound.tidy {s : Desk} (h : s.Sound cfg) : s.Tidy := by
  intro he hqueue
  obtain ⟨turns, hruns⟩ := h.runs
  have hrun : (Terms.run cfg turns).ended = false := hruns ▸ he
  have hhanded : Handed s.terms := hruns ▸ run_handed hrun
  have hptys : Ptys .top s.terms := hruns ▸ run_ptys hrun
  have howned : ∀ id slot, s.terms.slot id = some slot →
      ∃ reply, .reply reply (.ok id) ∈ s.terms.log ∧ s.gone reply = false ∧
        s.dropped id = false := by
    intro id slot hs
    obtain ⟨reply, hreply⟩ := mem_granted.mp (hhanded id slot hs)
    refine ⟨reply, hreply, h.reached reply id hreply, ?_⟩
    by_contra hdropped
    obtain ⟨-, hq | ⟨pre, post, hcut, hpre⟩⟩ := h.closes id (eq_true_of_ne_false hdropped)
    · rw [hqueue] at hq
      cases hq
    · cases (hptys.closed pre id post hcut hpre).2.symm.trans hs
  refine ⟨howned, fun hnone => ?_⟩
  have hempty : s.terms.slots = ∅ := by
    refine (slots_eq_empty_iff _).mpr fun id => ?_
    by_contra hsome
    obtain ⟨slot, hs⟩ := Option.ne_none_iff_exists'.mp hsome
    obtain ⟨reply, hreply, hgone, hdropped⟩ := howned id slot hs
    rcases hnone reply id hreply with hg | hd
    · cases hgone.symm.trans hg
    · cases hdropped.symm.trans hd
  refine ⟨hempty, ?_⟩
  obtain ⟨sh, hsh⟩ : s.terms.Shaped := hruns ▸ shaped_run hrun
  cases sh with
  | idle => exact hsh.1
  | up => exact absurd hempty hsh.2.1
  | down => exact absurd hempty hsh.2.1

/-- In every run in which no terminal is sent to a caller that has gone, and no caller goes that
was sent one and did not take it: every terminal has an owner. -/
theorem no_orphans (cfg : HostConfig) (acts later : List Act)
    (h : (Desk.start cfg).AllMet (acts ++ later)) : (Desk.run cfg acts).Tidy :=
  ((start_desk cfg).acts h).tidy

/-- A terminal is opened for a caller that waits for it, and dropped. -/
def droppedActs : List Act := [.asks ⟨"work", false, ⟨80, 24⟩⟩,
  .turns ⟨0, .command (some (.open ⟨"work", false, ⟨80, 24⟩⟩ 0)),
    [⟨[], 5, none, some (.ok ())⟩, ⟨[], 5, none, some (.ok ())⟩], id, List.Perm.refl⟩,
  .receives 1, .drops 1, .turns ⟨0, .command (some (.close 1)), [], id, List.Perm.refl⟩]

theorem no_orphans_dropped : (Desk.run ⟨"h", .localHost, none⟩ droppedActs).Tidy :=
  no_orphans _ droppedActs []
    ⟨trivial, fun _ _ _ _ _ => rfl, trivial, trivial, fun _ _ _ _ _ => rfl, trivial⟩

end MultiAi.Terms
