import MultiAi.Terms.Moves

/-! # Opens are answered in order

An open that was received is answered, is being served, or waits behind those received before
it. The terminal of an answer has an id that nothing had before.
-/

namespace MultiAi.Terms

open Std

def handledCmds (log : List TermEffect) : List TermCmd := log.filterMap fun
  | .handled cmd => some cmd
  | _ => none

/-- The opens that were received, by their replies. -/
def opened (log : List TermEffect) : List ℕ := log.filterMap fun
  | .handled (.open _ reply) => some reply
  | _ => none

def answers (log : List TermEffect) : List (ℕ × Except TermError ℕ) := log.filterMap fun
  | .reply reply r => some (reply, r)
  | _ => none

/-- The ids of the terminals that were opened for their callers. -/
def granted (log : List TermEffect) : List ℕ := log.filterMap fun
  | .reply _ (.ok id) => some id
  | _ => none

/-- The terminal an effect is about. -/
def named : TermEffect → Option ℕ
  | .owner id _ => some id
  | .opening id _ => some id
  | .attach id _ _ => some id
  | .created _ id _ _ => some id
  | .reply _ (.ok id) => some id
  | _ => none

def Doing.flight : Doing → Flight
  | .work _ flight => flight
  | _ => .none

/-- The terminal is being opened: it was not named before, and no caller was answered since. -/
def Fresh (log : List TermEffect) (id : ℕ) (spec : AttachSpec) : Prop :=
  ∃ pre post, log = pre ++ .opening id spec :: post ∧ (∀ x ∈ pre, named x ≠ some id) ∧
    answers post = []

/-- The opens that were received are answered, served or waiting, in this order. -/
def Fifo (d : Doing) (s : Terms) : Prop :=
  match d with
  | .work caller _ =>
    opened s.log = (answers s.log).map Prod.fst ++ caller.toList ++ s.pending.map Prod.snd
  | .answered => opened s.log = (answers s.log).map Prod.fst ++ s.pending.map Prod.snd
  | .stopped => (answers s.log).map Prod.fst <+: opened s.log

/-- What holds of the ids of the terminals within a turn. -/
structure Ids (d : Doing) (s : Terms) : Prop where
  slots : ∀ id slot, s.slot id = some slot → id < s.nextId
  names : ∀ x ∈ s.log, ∀ id, named x = some id → id < s.nextId
  again : ∀ id g, d.flight = .again id g → id < s.nextId
  new : ∀ id spec, d.flight = .new id spec →
    id < s.nextId ∧ s.slot id = none ∧ Fresh s.log id spec
  fresh : ∀ pre r id post, s.log = pre ++ .reply r (.ok id) :: post → ∃ spec, Fresh pre id spec
  distinct : (granted s.log).Nodup

variable {d d' : Doing} {s s' : Terms} {log new : List TermEffect} {id : ℕ} {w : Option Wake}
  {fails : Prop} {a b : Doing × Terms}

theorem opened_append : opened (log ++ new) = opened log ++ opened new := List.filterMap_append

theorem handledCmds_append :
    handledCmds (log ++ new) = handledCmds log ++ handledCmds new := List.filterMap_append

theorem mem_handledCmds {cmd : TermCmd} : cmd ∈ handledCmds log ↔ .handled cmd ∈ log := by
  constructor
  · intro h
    obtain ⟨x, hx, heq⟩ := List.mem_filterMap.mp h
    cases x with
    | handled cmd' =>
      cases heq
      exact hx
    | _ => cases heq
  · exact fun h => List.mem_filterMap.mpr ⟨_, h, rfl⟩

theorem answers_append : answers (log ++ new) = answers log ++ answers new :=
  List.filterMap_append

theorem granted_append : granted (log ++ new) = granted log ++ granted new :=
  List.filterMap_append

theorem mem_answers {reply : ℕ} {r : Except TermError ℕ} :
    (reply, r) ∈ answers log ↔ .reply reply r ∈ log := by
  constructor
  · intro h
    obtain ⟨x, hx, heq⟩ := List.mem_filterMap.mp h
    cases x with
    | reply reply' r' =>
      cases heq
      exact hx
    | _ => cases heq
  · exact fun h => List.mem_filterMap.mpr ⟨_, h, rfl⟩

theorem mem_granted : id ∈ granted log ↔ ∃ reply, .reply reply (.ok id) ∈ log := by
  constructor
  · intro h
    obtain ⟨x, hx, hid⟩ := List.mem_filterMap.mp h
    cases x with
    | reply reply r =>
      cases r with
      | ok id' =>
        cases hid
        exact ⟨reply, hx⟩
      | error e => cases hid
    | _ => cases hid
  · rintro ⟨reply, h⟩
    exact List.mem_filterMap.mpr ⟨_, h, rfl⟩

theorem granted_of_answers (h : answers log = []) : granted log = [] := by
  refine List.filterMap_eq_nil_iff.mpr fun x hx => ?_
  have hnone := List.filterMap_eq_nil_iff.mp h x hx
  cases x with
  | reply r x => cases hnone
  | _ => rfl

theorem Fresh.append {spec : AttachSpec} (h : Fresh log id spec) (hnew : answers new = []) :
    Fresh (log ++ new) id spec := by
  obtain ⟨pre, post, rfl, hpre, hpost⟩ := h
  refine ⟨pre, post ++ new, by simp, hpre, ?_⟩
  rw [answers_append, hpost, hnew, List.append_nil]

theorem Fresh.not_granted {spec : AttachSpec} (h : Fresh log id spec) : id ∉ granted log := by
  obtain ⟨pre, post, rfl, hpre, hpost⟩ := h
  intro hmem
  rw [granted_append] at hmem
  rcases List.mem_append.mp hmem with hmem | hmem
  · obtain ⟨reply, hx⟩ := mem_granted.mp hmem
    exact hpre _ hx rfl
  · have hnone : granted (.opening id spec :: post) = [] := granted_of_answers hpost
    rw [hnone] at hmem
    cases hmem

/-- A log that grows without a grant. -/
theorem Ids.ungranted (h : Ids d s) (hlog : log = s.log ++ new) (hnew : granted new = []) :
    (∀ pre r id post, log = pre ++ .reply r (.ok id) :: post → ∃ spec, Fresh pre id spec) ∧
      (granted log).Nodup := by
  subst hlog
  constructor
  · intro pre r id post heq
    rcases Log.append_eq_cut.mp heq with ⟨mid, hcut, -⟩ | ⟨mid, -, hcut⟩
    · exact h.fresh pre r id mid hcut
    · have hmem : id ∈ granted new := mem_granted.mpr ⟨r, hcut ▸ by simp⟩
      rw [hnew] at hmem
      cases hmem
  · rw [granted_append, hnew, List.append_nil]
    exact h.distinct

/-- A log that grows by the grant of a terminal that is being opened. -/
theorem Ids.grants {spec : AttachSpec} {reply p : ℕ} (h : Ids d s) (hfresh : Fresh s.log id spec)
    (hlog : log = s.log ++
      [.created p id 0 spec, .owner id .attached, .reply reply (.ok id)]) :
    (∀ pre r id post, log = pre ++ .reply r (.ok id) :: post → ∃ spec, Fresh pre id spec) ∧
      (granted log).Nodup := by
  subst hlog
  constructor
  · intro pre r id' post heq
    rcases Log.append_eq_cut.mp heq with ⟨mid, hcut, -⟩ | ⟨mid, rfl, hcut⟩
    · exact h.fresh pre r id' mid hcut
    · rcases mid with _ | ⟨x, _ | ⟨y, _ | ⟨z, mid⟩⟩⟩ <;> simp at hcut
      obtain ⟨rfl, rfl, ⟨-, rfl⟩, -⟩ := hcut
      exact ⟨spec, hfresh.append rfl⟩
  · have hnew : id ∉ granted s.log := hfresh.not_granted
    rw [granted_append]
    apply List.nodup_append.mpr
    refine ⟨h.distinct, by simp [granted], fun a ha b hb hab => hnew ?_⟩
    rwa [← List.mem_singleton.mp hb, ← hab]

/-- A move that opens nothing and answers nothing. -/
theorem Ids.frame (h : Ids d s) (hlog : s'.log = s.log ++ new) (hanswers : answers new = [])
    (hnames : ∀ x ∈ new, ∀ id, named x = some id → id < s.nextId) (hnext : s'.nextId = s.nextId)
    (hslots : ∀ id slot', s'.slot id = some slot' → ∃ slot, s.slot id = some slot)
    (hagain : ∀ id g, d'.flight = .again id g → id < s.nextId)
    (hnew : ∀ id spec, d'.flight = .new id spec → d.flight = .new id spec) : Ids d' s' := by
  constructor
  · intro id slot' hs
    obtain ⟨slot, hs⟩ := hslots id slot' hs
    rw [hnext]
    exact h.slots id slot hs
  · rw [hlog, hnext]
    intro x hx id hid
    rcases List.mem_append.mp hx with hx | hx
    · exact h.names x hx id hid
    · exact hnames x hx id hid
  · rw [hnext]
    exact hagain
  · intro id spec hf
    obtain ⟨hlt, hnone, hfresh⟩ := h.new id spec (hnew id spec hf)
    refine ⟨hnext ▸ hlt, ?_, hlog ▸ hfresh.append hanswers⟩
    by_contra hsome
    obtain ⟨slot', hs⟩ := Option.ne_none_iff_exists'.mp hsome
    obtain ⟨slot, hs⟩ := hslots id slot' hs
    rw [hnone] at hs
    cases hs
  · exact (h.ungranted hlog (granted_of_answers hanswers)).1
  · exact (h.ungranted hlog (granted_of_answers hanswers)).2

/-- A move that names no terminal and changes no slot. -/
theorem Ids.quiet (h : Ids d s) (hlog : s'.log = s.log ++ new) (hanswers : answers new = [])
    (hnames : ∀ x ∈ new, named x = none) (hnext : s'.nextId = s.nextId)
    (hslots : ∀ id slot', s'.slot id = some slot' → ∃ slot, s.slot id = some slot)
    (hflight : d'.flight = d.flight) : Ids d' s' := by
  refine h.frame hlog hanswers (fun x hx id hid => ?_) hnext hslots ?_ ?_
  · rw [hnames x hx] at hid
    cases hid
  · rw [hflight]
    exact h.again
  · rw [hflight]
    exact fun _ _ hf => hf

theorem answers_of_sent {sent : List TermEffect} (hsent : ∀ x ∈ sent, ∃ p msg, x = .pty p msg) :
    opened sent = [] ∧ answers sent = [] ∧ ∀ x ∈ sent, named x = none := by
  refine ⟨List.filterMap_eq_nil_iff.mpr ?_, List.filterMap_eq_nil_iff.mpr ?_, ?_⟩
  all_goals
    intro x hx
    obtain ⟨p, msg, rfl⟩ := hsent x hx
    rfl

/-- What a terminal that attached for its caller adds to the log. -/
theorem granted_log (log : List TermEffect) (reply id p : ℕ) (spec : AttachSpec) :
    log ++ [TermEffect.created p id 0 spec] ++ [TermEffect.owner id .attached] ++
        [TermEffect.reply reply (.ok id)] =
      log ++ [TermEffect.created p id 0 spec, TermEffect.owner id .attached,
        TermEffect.reply reply (.ok id)] := by
  simp only [List.append_assoc, List.cons_append, List.nil_append]

theorem Ids.handles (h : Ids d s) (cmd : TermCmd)
    (hf : d'.flight = d.flight ∨ d'.flight = .none) : Ids d' (s.doLocal cmd) := by
  have hc := handles_doLocal s cmd
  obtain ⟨sent, hlog, hsent, -⟩ := hc.log
  obtain ⟨-, hanswers, hnamed⟩ := answers_of_sent hsent
  refine h.frame hlog hanswers ?_ hc.nextId ?_ ?_ ?_
  · intro x hx id hid
    rcases List.mem_cons.mp hx with rfl | hx
    · cases hid
    · rw [hnamed x hx] at hid
      cases hid
  · intro id slot' hs
    obtain ⟨slot, hs, -⟩ := hc.found id slot' hs
    exact ⟨slot, hs⟩
  · intro id g hg
    rcases hf with hf | hf <;> rw [hf] at hg
    · exact h.again id g hg
    · cases hg
  · intro id spec hg
    rcases hf with hf | hf <;> rw [hf] at hg
    · exact hg
    · cases hg

theorem drops_slots (s : Terms) (e : TermEffect) (id : ℕ) :
    ∀ id' slot', ((s.note e).dropSlot id).slot id' = some slot' →
      ∃ slot, s.slot id' = some slot := by
  intro id' slot' hs
  rw [slot_dropSlot] at hs
  split_ifs at hs
  exact ⟨slot', hs⟩

theorem Ids.move (hm : Move fails w a b) (h : Ids a.1 a.2) : Ids b.1 b.2 := by
  cases hm with
  | waits script now =>
    exact h.quiet (List.append_nil _).symm rfl (by simp) rfl (fun _ slot hs => ⟨slot, hs⟩) rfl
  | stops => exact h.handles .stop (Or.inr rfl)
  | handles cmd => exact h.handles cmd (Or.inl rfl)
  | takes hp => exact h.quiet rfl rfl (by simp [named]) rfl (fun _ slot hs => ⟨slot, hs⟩) rfl
  | pops hp =>
    exact h.quiet (List.append_nil _).symm rfl (by simp) rfl (fun _ slot hs => ⟨slot, hs⟩) rfl
  | dials => exact h.quiet rfl rfl (by simp [named]) rfl (fun _ slot hs => ⟨slot, hs⟩) rfl
  | connects hd => exact h.quiet rfl rfl (by simp [named]) rfl (fun _ slot hs => ⟨slot, hs⟩) rfl
  | rests hd hup hbusy =>
    exact h.quiet rfl rfl (by simp [named]) rfl (fun _ slot hs => ⟨slot, hs⟩) rfl
  | @loses v f s reason hf =>
    refine h.frame rfl (List.filterMap_eq_nil_iff.mpr ?_) ?_ rfl ?_ (by simp [Doing.flight]) (by simp [Doing.flight])
    · intro x hx
      obtain ⟨id, -, rfl⟩ := List.mem_map.mp hx
      rfl
    · rintro x hx id hid
      obtain ⟨id', hid', rfl⟩ := List.mem_map.mp hx
      cases hid
      obtain ⟨slot, hs⟩ := Option.isSome_iff_exists.mp ((s.mem_keys id).mp hid')
      exact h.slots id slot hs
    · intro id slot' hs
      obtain ⟨slot, hold, -⟩ := slot_map_detach (s := s) rfl hs
      exact ⟨slot, hold⟩
  | @attachesAgain v s id slot zellij hl hs hp =>
    refine h.frame rfl rfl ?_ rfl (fun _ slot hs => ⟨slot, hs⟩) ?_ (by simp [Doing.flight])
    · simpa [named] using h.slots id slot hs
    · rintro id' g ⟨⟩
      exact h.slots id slot hs
  | @attachesNew reply s spec zellij hl =>
    constructor
    · exact fun id slot hs => Nat.lt_succ_of_lt (h.slots id slot hs)
    · intro x hx id hid
      simp only [note, List.append_assoc, List.singleton_append, List.mem_append, List.mem_cons,
        List.not_mem_nil, or_false] at hx
      rcases hx with hx | rfl | rfl
      · exact Nat.lt_succ_of_lt (h.names x hx id hid)
      · cases hid
        exact Nat.lt_succ_self _
      · cases hid
        exact Nat.lt_succ_self _
    · simp [Doing.flight]
    · rintro id spec' ⟨⟩
      refine ⟨Nat.lt_succ_self _, ?_, ?_⟩
      · by_contra hsome
        obtain ⟨slot, hs⟩ := Option.ne_none_iff_exists'.mp hsome
        exact Nat.lt_irrefl _ (h.slots _ slot hs)
      · refine ⟨s.log, [.attach s.nextId spec zellij], List.append_assoc .., ?_, rfl⟩
        exact fun x hx hid => Nat.lt_irrefl _ (h.names x hx _ hid)
    · exact (h.ungranted (List.append_assoc ..) rfl).1
    · exact (h.ungranted (List.append_assoc ..) rfl).2
  | failsAgain hf =>
    exact h.frame (List.append_nil _).symm rfl (by simp) rfl (fun _ slot hs => ⟨slot, hs⟩)
      (by simp [Doing.flight]) (by simp [Doing.flight])
  | failsNew =>
    exact h.frame (List.append_nil _).symm rfl (by simp) rfl (fun _ slot hs => ⟨slot, hs⟩)
      (by simp [Doing.flight]) (by simp [Doing.flight])
  | @attachedAgain v s id g spec =>
    have hid := h.again id g rfl
    rcases attachedAgain_cases s id g spec with ⟨slot, hs, heq⟩ | ⟨hs, heq⟩
    · rw [heq]
      refine h.frame (List.append_assoc ..) rfl ?_ rfl ?_ (by simp [Doing.flight]) (by simp [Doing.flight])
      · simpa [named] using hid
      · exact fun id' slot' hs' => found_of_setSlot hs hs'
    · rw [heq]
      refine h.frame (List.append_assoc ..) rfl ?_ rfl (fun _ slot hs => ⟨slot, hs⟩)
        (by simp [Doing.flight]) (by simp [Doing.flight])
      simpa [named] using hid
  | @attachedNew reply s id spec =>
    obtain ⟨hlt, hnone, hfresh⟩ := h.new id spec rfl
    have hlog := granted_log s.log reply id s.nextPty spec
    constructor
    · intro id' slot' hs
      rw [slot_note, slot_setSlot] at hs
      split_ifs at hs with he
      · exact he ▸ hlt
      · exact h.slots id' slot' hs
    · intro x hx id' hid
      simp only [note, setSlot, hlog, List.mem_append, List.mem_cons, List.not_mem_nil,
        or_false] at hx
      rcases hx with hx | rfl | rfl | rfl
      · exact h.names x hx id' hid
      all_goals
        cases hid
        exact hlt
    · simp [Doing.flight]
    · simp [Doing.flight]
    · exact (h.grants hfresh hlog).1
    · exact (h.grants hfresh hlog).2
  | @refuses reply s e =>
    constructor
    · exact h.slots
    · intro x hx id hid
      rcases List.mem_append.mp hx with hx | hx
      · exact h.names x hx id hid
      · obtain rfl := List.mem_singleton.mp hx
        cases hid
    · simp [Doing.flight]
    · simp [Doing.flight]
    · exact (h.ungranted rfl rfl).1
    · exact (h.ungranted rfl rfl).2
  | @delivers s id slot d alive hw =>
    refine h.frame rfl rfl ?_ rfl (fun _ slot hs => ⟨slot, hs⟩) (by rintro _ _ ⟨⟩) (by simp)
    simpa [named] using h.slots id slot hw.found
  | @exits s id slot status alive hw =>
    refine h.frame rfl rfl ?_ rfl (drops_slots s _ id) (by rintro _ _ ⟨⟩) (by simp)
    simpa [named] using h.slots id slot hw.found
  | @givesUp s id slot hw hl hq =>
    refine h.frame rfl rfl ?_ rfl (drops_slots s _ id) (by rintro _ _ ⟨⟩) (by simp)
    simpa [named] using h.slots id slot hw.found
  | @closes s id slot hw hl hq =>
    refine h.frame rfl rfl ?_ rfl ?_ (by rintro _ _ ⟨⟩) (by simp)
    · simpa [named] using h.slots id slot hw.found
    · intro id' slot' hs
      rw [slot_note, slot_setSlot] at hs
      split_ifs at hs with he
      · exact ⟨slot, he ▸ hw.found⟩
      · exact ⟨slot', hs⟩

/-- A move that receives no open and answers none. -/
theorem Fifo.frame {v : Option ℕ} {f f' : Flight} (h : Fifo (.work v f) s)
    (hlog : s'.log = s.log ++ new) (hopened : opened new = []) (hanswers : answers new = [])
    (hpending : s'.pending = s.pending) : Fifo (.work v f') s' := by
  simp only [Fifo] at h ⊢
  rw [hlog, opened_append, answers_append, hopened, hanswers, List.append_nil, List.append_nil,
    hpending]
  exact h

theorem Fifo.move (hm : Move fails w a b) (h : Fifo a.1 a.2) : Fifo b.1 b.2 := by
  cases hm with
  | waits script now => exact h
  | @stops v f s =>
    have hopened : opened (s.log ++ [.handled .stop]) = opened s.log := by simp [opened]
    have hanswers : answers (s.log ++ [.handled .stop]) = answers s.log := by simp [answers]
    change (answers (s.log ++ [.handled .stop])).map Prod.fst <+: opened (s.log ++ [.handled .stop])
    rw [hopened, hanswers, h, List.append_assoc]
    exact List.prefix_append _ _
  | @handles v f s cmd hstop =>
    have hc := handles_doLocal s cmd
    obtain ⟨sent, hlog, hsent, -⟩ := hc.log
    obtain ⟨hopened, hanswers, -⟩ := answers_of_sent hsent
    have hans : answers (.handled cmd :: sent) = [] := hanswers
    simp only [Fifo] at h ⊢
    rw [hlog, opened_append, answers_append, hans, List.append_nil, hc.pending, h]
    cases cmd with
    | «open» spec reply =>
      have hone : opened (.handled (.open spec reply) :: sent) = [reply] :=
        congrArg (reply :: ·) hopened
      rw [hone]
      simp
    | _ =>
      simp only [List.append_nil]
      exact (congrArg _ hopened).trans (List.append_nil _)
  | @takes s spec reply hp =>
    simp only [Fifo, Doing.top] at h ⊢
    simp only [note, opened_append, answers_append, h, hp]
    simp [opened, answers]
  | @pops s spec reply pending hp =>
    simp only [Fifo, Doing.top] at h ⊢
    rw [h, hp]
    simp
  | dials => exact h.frame rfl rfl rfl rfl
  | connects hd => exact h.frame rfl rfl rfl rfl
  | rests hd hup hbusy => exact h.frame rfl rfl rfl rfl
  | @loses v f s reason hf =>
    refine h.frame rfl ?_ ?_ rfl <;> refine List.filterMap_eq_nil_iff.mpr fun x hx => ?_ <;>
      obtain ⟨id, -, rfl⟩ := List.mem_map.mp hx <;> rfl
  | attachesAgain hl hs hp => exact h.frame rfl rfl rfl rfl
  | attachesNew hl => exact h.frame (List.append_assoc ..) rfl rfl rfl
  | failsAgain hf => exact h.frame (List.append_nil _).symm rfl rfl rfl
  | failsNew => exact h.frame (List.append_nil _).symm rfl rfl rfl
  | @attachedAgain v s id g spec =>
    rcases attachedAgain_cases s id g spec with ⟨slot, hs, heq⟩ | ⟨hs, heq⟩
    · rw [heq]
      exact h.frame (List.append_assoc ..) rfl rfl rfl
    · rw [heq]
      exact h.frame (List.append_assoc ..) rfl rfl rfl
  | @attachedNew reply s id spec =>
    simp only [Fifo] at h ⊢
    simp only [note, setSlot, opened_append, answers_append, h]
    simp [opened, answers]
  | @refuses reply s e =>
    simp only [Fifo] at h ⊢
    simp only [note, opened_append, answers_append, h]
    simp [opened, answers]
  | delivers hw => exact h.frame rfl rfl rfl rfl
  | exits hw => exact h.frame rfl rfl rfl rfl
  | givesUp hw hl hq => exact h.frame rfl rfl rfl rfl
  | closes hw hl hq => exact h.frame rfl rfl rfl rfl

/-- Since `log₀` no caller was answered, or the last thing done was to answer one; a caller is
answered with a terminal that is attached over a connection that is up. -/
def Served (log₀ : List TermEffect) (d : Doing) (s : Terms) : Prop :=
  ∃ new, s.log = log₀ ++ new ∧ match d with
    | .answered => ∃ pre reply r, new = pre ++ [.reply reply r] ∧ answers pre = [] ∧
      ∀ id, r = .ok id → s.link = .up ∧ ∃ slot, s.slot id = some slot ∧ slot.pty.isSome
    | _ => answers new = []

theorem Served.frame {log₀ : List TermEffect} {v : Option ℕ} {f : Flight}
    (h : Served log₀ (.work v f) s) (hlog : s'.log = s.log ++ new) (hanswers : answers new = [])
    (hd : d' ≠ .answered) : Served log₀ d' s' := by
  obtain ⟨old, hold, hnone⟩ := h
  refine ⟨old ++ new, by rw [hlog, hold, List.append_assoc], ?_⟩
  have hall : answers (old ++ new) = [] := by rw [answers_append, hnone, hanswers]; rfl
  cases d' with
  | answered => exact absurd rfl hd
  | _ => exact hall

theorem Served.move {log₀ : List TermEffect} (hm : Move fails w a b) (h : Served log₀ a.1 a.2) :
    Served log₀ b.1 b.2 := by
  cases hm with
  | waits script now => exact h
  | stops => exact h.frame rfl rfl (by simp)
  | @handles v f s cmd hstop =>
    obtain ⟨sent, hlog, hsent, -⟩ := (handles_doLocal s cmd).log
    obtain ⟨-, hanswers, -⟩ := answers_of_sent hsent
    exact h.frame hlog hanswers (by simp)
  | takes hp => exact h.frame rfl rfl (by simp)
  | pops hp => exact h
  | dials => exact h.frame rfl rfl (by simp)
  | connects hd => exact h.frame rfl rfl (by simp)
  | rests hd hup hbusy => exact h.frame rfl rfl (by simp)
  | @loses v f s reason hf =>
    refine h.frame rfl (List.filterMap_eq_nil_iff.mpr fun x hx => ?_) (by simp)
    obtain ⟨id, -, rfl⟩ := List.mem_map.mp hx
    rfl
  | attachesAgain hl hs hp => exact h.frame rfl rfl (by simp)
  | attachesNew hl => exact h.frame (List.append_assoc ..) rfl (by simp)
  | failsAgain hf => exact h
  | failsNew => exact h
  | @attachedAgain v s id g spec =>
    rcases attachedAgain_cases s id g spec with ⟨slot, hs, heq⟩ | ⟨hs, heq⟩
    · rw [heq]
      exact h.frame (List.append_assoc ..) rfl (by simp)
    · rw [heq]
      exact h.frame (List.append_assoc ..) rfl (by simp)
  | @attachedNew reply s id spec =>
    obtain ⟨old, hold, hnone⟩ := h
    refine ⟨(old ++ [.created s.nextPty id 0 spec, .owner id .attached]) ++ [.reply reply (.ok id)],
      ?_, _, reply, .ok id, rfl, ?_, ?_⟩
    · simp only at hold
      simp [note, setSlot, hold]
    · rw [answers_append, hnone]
      rfl
    · rintro id' ⟨⟩
      refine ⟨rfl, ⟨spec, some s.nextPty, 0, s.now, 0⟩, ?_, rfl⟩
      rw [slot_note, slot_setSlot, if_pos rfl]
  | @refuses reply s e =>
    obtain ⟨old, hold, hnone⟩ := h
    refine ⟨old ++ [.reply reply (.error e)], ?_, old, reply, .error e, rfl, hnone, (by simp)⟩
    simp only at hold
    simp [note, hold]
  | delivers hw => exact h.frame rfl rfl (by rintro ⟨⟩)
  | exits hw => exact h.frame rfl rfl (by rintro ⟨⟩)
  | givesUp hw hl hq => exact h.frame rfl rfl (by rintro ⟨⟩)
  | closes hw hl hq => exact h.frame rfl rfl (by rintro ⟨⟩)

/-- The task goes on only while it was not told to stop, and that is the last thing it hears. -/
def Unstopped (d : Doing) (s : Terms) : Prop :=
  match d with
  | .stopped => ∃ pre, s.log = pre ++ [.handled .stop] ∧ .handled .stop ∉ pre
  | _ => .handled .stop ∉ s.log

theorem Unstopped.frame {v : Option ℕ} {f : Flight} (h : Unstopped (.work v f) s)
    (hlog : s'.log = s.log ++ new) (hnew : .handled .stop ∉ new) (hd : d' ≠ .stopped) :
    Unstopped d' s' := by
  have hmem : .handled .stop ∉ s'.log := by
    rw [hlog]
    intro hmem
    rcases List.mem_append.mp hmem with hmem | hmem
    · exact h hmem
    · exact hnew hmem
  cases d' with
  | stopped => exact absurd rfl hd
  | _ => exact hmem

theorem Unstopped.move (hm : Move fails w a b) (h : Unstopped a.1 a.2) : Unstopped b.1 b.2 := by
  cases hm with
  | waits script now => exact h
  | @stops v f s => exact ⟨s.log, rfl, h⟩
  | @handles v f s cmd hstop =>
    obtain ⟨sent, hlog, hsent, -⟩ := (handles_doLocal s cmd).log
    refine h.frame hlog ?_ nofun
    intro hmem
    rcases List.mem_cons.mp hmem with heq | hmem
    · cases heq
      exact hstop rfl
    · obtain ⟨p, msg, heq⟩ := hsent _ hmem
      cases heq
  | takes hp => exact h.frame rfl (by simp) nofun
  | pops hp => exact h
  | dials => exact h.frame rfl (by simp) nofun
  | connects hd => exact h.frame rfl (by simp) nofun
  | rests hd hup hbusy => exact h.frame rfl (by simp) nofun
  | loses reason hf => exact h.frame rfl (by simp) nofun
  | attachesAgain hl hs hp => exact h.frame rfl (by simp) nofun
  | attachesNew hl => exact h.frame (List.append_assoc ..) (by simp) nofun
  | failsAgain hf => exact h
  | failsNew => exact h
  | @attachedAgain v s id g spec =>
    rcases attachedAgain_cases s id g spec with ⟨slot, hs, heq⟩ | ⟨hs, heq⟩
    · rw [heq]
      exact h.frame (List.append_assoc ..) (by simp) nofun
    · rw [heq]
      exact h.frame (List.append_assoc ..) (by simp) nofun
  | @attachedNew reply s id spec =>
    exact h.frame (granted_log ..) (by simp) nofun
  | refuses => exact h.frame rfl (by simp) nofun
  | delivers hw => exact h.frame rfl (by simp) nofun
  | exits hw => exact h.frame rfl (by simp) nofun
  | givesUp hw hl hq => exact h.frame rfl (by simp) nofun
  | closes hw hl hq => exact h.frame rfl (by simp) nofun

section Runs

/-- The open that a turn serves. -/
def serves (s : Terms) (turn : Turn) : Option ℕ :=
  match s.pending, turn.wake with
  | (_, reply) :: _, _ => some reply
  | [], .command (some (.open _ reply)) => some reply
  | _, _ => none

theorem closeAll_log (s : Terms) :
    ∃ sent, s.closeAll.log = s.log ++ sent ∧ ∀ x ∈ sent, ∃ p msg, x = .pty p msg := by
  refine ⟨_, rfl, fun x hx => ?_⟩
  obtain ⟨⟨id, slot⟩, -, hp⟩ := List.mem_filterMap.mp hx
  obtain ⟨p, -, rfl⟩ := Option.map_eq_some_iff.mp hp
  exact ⟨p, .close, rfl⟩

/-- The end of the task only sends closes. -/
theorem closeAll_cut {pre post : List TermEffect} {x : TermEffect} (hx : ∀ p msg, x ≠ .pty p msg)
    (hcut : s.closeAll.log = pre ++ x :: post) :
    ∃ mid sent, s.log = pre ++ x :: mid ∧ post = mid ++ sent ∧ s.closeAll.log = s.log ++ sent ∧
      ∀ y ∈ sent, ∃ p msg, y = .pty p msg := by
  obtain ⟨sent, hsent, hclose⟩ := closeAll_log s
  rw [hsent] at hcut
  rcases Log.append_eq_cut.mp hcut with ⟨mid, hold, hpost⟩ | ⟨mid, -, hnew⟩
  · exact ⟨mid, sent, hold, hpost, hsent, hclose⟩
  · obtain ⟨p, msg, hy⟩ := hclose x (by rw [hnew]; simp)
    exact absurd hy (hx p msg)

/-- A turn that serves an open and does not end the task takes it up, and then answers. -/
theorem chain_serves {turn : Turn} {reply : ℕ} (hs : s.Shaped)
    (hserves : s.serves turn = some reply) (he : s.ended = false)
    (hgoes : (s.step turn).ended = false) :
    ∃ t, Chain True (s.woken turn) (.top, s) (.work (some reply) .none, t) ∧
      answers t.log = answers s.log ∧
      Chain True (s.woken turn) (.work (some reply) .none, t) (.answered, s.step turn) := by
  have hstart : Chain True (s.woken turn) (.top, s)
      (.top, { s with now := s.now + turn.elapsed, script := turn.script }) :=
    .single (.waits turn.script (s.now + turn.elapsed))
  have hs' : Shaped { s with now := s.now + turn.elapsed, script := turn.script } :=
    hs.same rfl rfl rfl
  unfold step at hgoes ⊢
  rw [if_neg (by simp [he])] at hgoes ⊢
  have hpending : Terms.pending { s with now := s.now + turn.elapsed, script := turn.script } =
    s.pending := rfl
  have hlog : Terms.log { s with now := s.now + turn.elapsed, script := turn.script } = s.log := rfl
  generalize { s with now := s.now + turn.elapsed, script := turn.script } = u at *
  rcases hb : u.body turn with ⟨t, _ | _⟩ <;> rw [hb] at hgoes
  · cases hgoes
  · simp only
    unfold body at hb
    unfold serves at hserves
    rw [← hpending] at hserves
    rcases hp : u.pending with _ | ⟨⟨spec, reply'⟩, pending⟩ <;> rw [hp] at hb hserves
    · cases hw : turn.wake with
      | command cmd =>
        rw [hw] at hb hserves
        rcases cmd with _ | cmd
        · cases hserves
        · cases cmd with
          | «open» spec reply' =>
            cases hserves
            have hchain := leads_serveOpen (w := s.woken turn) spec reply turn.order_perm
              (hs'.note (e := .handled (.open spec reply)) rfl) fun _ => trivial
            rw [show serveOpen _ spec reply turn.order = (t, true) from hb] at hchain
            refine ⟨_, hstart.tail (.takes hp), ?_, hchain⟩
            rw [note, answers_append, hlog]
            exact List.append_nil _
          | _ => cases hserves
      | output id generation out alive =>
        rw [hw] at hserves
        cases hserves
      | timer =>
        rw [hw] at hserves
        cases hserves
    · cases hserves
      have hrest : Shaped { u with pending := pending } := hs'.same rfl rfl rfl
      have hchain := leads_serveOpen (w := s.woken turn) spec reply turn.order_perm hrest
        fun _ => trivial
      rw [show serveOpen _ spec reply turn.order = (t, true) from hb] at hchain
      exact ⟨_, hstart.tail (.pops hp), congrArg answers hlog, hchain⟩

/-- The answer of a turn goes to the caller it serves. -/
theorem step_answers {turn : Turn} {reply : ℕ} (hs : s.Shaped) (hfifo : Fifo .top s)
    (hserves : s.serves turn = some reply) (he : s.ended = false)
    (hgoes : (s.step turn).ended = false) :
    ∃ r, answers (s.step turn).log = answers s.log ++ [(reply, r)] := by
  obtain ⟨t, htake, hanswers, hserve⟩ := chain_serves hs hserves he hgoes
  have hstart : Fifo (.work (some reply) .none) t :=
    chain_rule (fun _ _ => Fifo.move) htake hfifo
  have hend : Fifo .answered (s.step turn) := chain_rule (fun _ _ => Fifo.move) hserve hstart
  obtain ⟨new, hnew, pre, reply', r, rfl, hpre, -⟩ :=
    chain_rule (fun _ _ => Served.move) hserve ⟨[], (List.append_nil _).symm, rfl⟩
  have hall : answers (s.step turn).log = answers t.log ++ [(reply', r)] := by
    rw [hnew, answers_append, answers_append, hpre]
    rfl
  have hgrow : opened (s.step turn).log = opened t.log ++ opened (pre ++ [.reply reply' r]) := by
    rw [hnew, opened_append]
  simp only [Fifo] at hstart hend
  rw [hend, hstart, hall] at hgrow
  obtain rfl : reply' = reply := by
    simp at hgrow
    exact hgrow.1
  exact ⟨r, by rw [hall, hanswers]⟩

theorem ids_init (cfg : HostConfig) : Ids .top (init cfg) := by
  constructor
  · intro id slot hs
    simp [Terms.slot, init] at hs
  · simp [init]
  · rintro _ _ ⟨⟩
  · rintro _ _ ⟨⟩
  · simp [init]
  · exact List.nodup_nil

theorem Ids.next (h : Ids .answered s) : Ids .top s :=
  ⟨h.slots, h.names, nofun, nofun, h.fresh, h.distinct⟩

/-- What one turn adds to the log. -/
theorem step_served (turn : Turn) (hs : s.Shaped) (he : s.ended = false) :
    ∃ new, (s.step turn).log = s.log ++ new ∧ (answers new = [] ∨
      ∃ pre reply r, new = pre ++ [.reply reply r] ∧ answers pre = [] ∧ ∀ id, r = .ok id →
        (s.step turn).link = .up ∧
          ∃ slot, (s.step turn).slot id = some slot ∧ slot.pty.isSome) := by
  obtain ⟨d, t, hc, hend⟩ := chain_step turn hs he
  have ht : Served s.log d t :=
    chain_rule (fun _ _ => Served.move) hc ⟨[], (List.append_nil _).symm, rfl⟩
  obtain ⟨new, hnew, hdone⟩ := ht
  rcases hend with ⟨rfl | rfl, hstep⟩ | ⟨hd, hstep⟩ <;> rw [hstep]
  · exact ⟨new, hnew, Or.inl hdone⟩
  · exact ⟨new, hnew, Or.inr hdone⟩
  · obtain ⟨sent, hsent, hclose⟩ := closeAll_log t
    obtain ⟨-, hanswers, -⟩ := answers_of_sent hclose
    refine ⟨new ++ sent, by rw [hsent, hnew, List.append_assoc], Or.inl ?_⟩
    rcases hd with rfl | ⟨v, f, rfl⟩ <;> rw [answers_append, hanswers, List.append_nil] <;>
      exact hdone

theorem run_ended (cfg : HostConfig) (turns later : List Turn)
    (he : (run cfg turns).ended = true) : run cfg (turns ++ later) = run cfg turns := by
  induction later using List.reverseRecOn with
  | nil => rw [List.append_nil]
  | append_singleton later turn ih => rw [← List.append_assoc, run_concat, ih, step, if_pos he]

/-- In every run: the opens that were received are answered in order, each once, and none is
answered any more once the task was told to stop or has ended; an answer is the last thing in
its turn, and a terminal that is handed out has a new id and is attached over a connection that
is up. -/
theorem opens_in_order (cfg : HostConfig) (turns : List Turn) :
    ((run cfg turns).ended = false →
      opened (run cfg turns).log = (answers (run cfg turns).log).map Prod.fst ++
        (run cfg turns).pending.map Prod.snd ∧
      .handled .stop ∉ (run cfg turns).log ∧
      ∀ turn, ∃ new, ((run cfg turns).step turn).log = (run cfg turns).log ++ new ∧
        (∀ reply, (run cfg turns).serves turn = some reply →
          ((run cfg turns).step turn).ended = false → ∃ r, answers new = [(reply, r)]) ∧
        (answers new = [] ∨ ∃ pre reply r, new = pre ++ [.reply reply r] ∧ answers pre = [] ∧
          ∀ id, r = .ok id → ((run cfg turns).step turn).link = .up ∧
            ∃ slot, ((run cfg turns).step turn).slot id = some slot ∧ slot.pty.isSome)) ∧
    ((run cfg turns).ended = true →
      (answers (run cfg turns).log).map Prod.fst <+: opened (run cfg turns).log ∧
      (∀ pre post, (run cfg turns).log = pre ++ .handled .stop :: post → answers post = []) ∧
      ∀ later, run cfg (turns ++ later) = run cfg turns) ∧
    (granted (run cfg turns).log).Nodup ∧
    ∀ pre reply id post, (run cfg turns).log = pre ++ .reply reply (.ok id) :: post →
      ∃ spec, Fresh pre id spec := by
  have hfifo := run_rule (I := Fifo) cfg rfl (fun _ _ _ _ => Fifo.move) (fun s h => by
    simpa [Fifo, Doing.top] using h) turns
  have hunstopped := run_rule (I := Unstopped) cfg (by simp [Unstopped, Doing.top, init])
    (fun _ _ _ _ => Unstopped.move) (fun s h => h) turns
  have hids := run_rule cfg (ids_init cfg) (fun _ _ _ _ => Ids.move) (fun s h => h.next) turns
  refine ⟨fun he => ⟨?_, hunstopped.1 he, fun turn => ?_⟩, fun he => ⟨?_, ?_, ?_⟩, ?_⟩
  · have heq := hfifo.1 he
    simpa [Fifo, Doing.top] using heq
  · obtain ⟨new, hnew, hserved⟩ := step_served turn (shaped_run he) he
    refine ⟨new, hnew, fun reply hserves hgoes => ?_, hserved⟩
    obtain ⟨r, hr⟩ := step_answers (shaped_run he) (hfifo.1 he) hserves he hgoes
    rw [hnew, answers_append] at hr
    exact ⟨r, List.append_cancel_left hr⟩
  · obtain ⟨d, t, hd, ht, heq⟩ := hfifo.2 he
    obtain ⟨sent, hsent, hclose⟩ := closeAll_log t
    obtain ⟨hopened, hanswers, -⟩ := answers_of_sent hclose
    rw [heq, hsent, opened_append, answers_append, hopened, hanswers, List.append_nil,
      List.append_nil]
    rcases hd with rfl | ⟨v, f, rfl⟩
    · exact ht
    · simp only [Fifo, List.append_assoc] at ht
      exact ⟨_, ht.symm⟩
  · obtain ⟨d, t, hd, ht, heq⟩ := hunstopped.2 he
    rw [heq]
    intro pre post hcut
    obtain ⟨mid, sent, hold, rfl, -, hclose⟩ := closeAll_cut (by simp) hcut
    obtain ⟨-, hanswers, -⟩ := answers_of_sent hclose
    rcases hd with rfl | ⟨v, f, rfl⟩
    · obtain ⟨before, hlast, hnone⟩ := ht
      rcases Log.append_cons_eq_cut.mp (hlast.symm.trans hold) with ⟨mid', hbefore, -⟩ |
        ⟨-, -, rfl⟩ | ⟨mid', -, hstop⟩
      · exact absurd (hbefore ▸ List.mem_append_right _ List.mem_cons_self) hnone
      · exact hanswers
      · simp at hstop
    · exact absurd (hold ▸ List.mem_append_right _ List.mem_cons_self) ht
  · exact fun later => run_ended cfg turns later he
  · cases he : (run cfg turns).ended with
    | false => exact ⟨(hids.1 he).distinct, (hids.1 he).fresh⟩
    | true =>
      obtain ⟨d, t, hd, ht, heq⟩ := hids.2 he
      obtain ⟨sent, hsent, hclose⟩ := closeAll_log t
      obtain ⟨-, hanswers, -⟩ := answers_of_sent hclose
      rw [heq, hsent]
      refine ⟨?_, fun pre reply id post hcut => ?_⟩
      · rw [granted_append, granted_of_answers hanswers, List.append_nil]
        exact ht.distinct
      · rw [← hsent] at hcut
        obtain ⟨mid, -, hold, -⟩ := closeAll_cut (by simp) hcut
        exact ht.fresh pre reply id mid hold

end Runs

end MultiAi.Terms
