import Mathlib.Algebra.Group.Nat.Defs
import MultiAi.Panes.Evidence

/-! # The grammar of scrape events

Without hooks the scrape events of a pane come in blocks: an agent appears, changes its
state and leaves. A block without a leave is cut by a poll that tells the pane gone.
-/

namespace MultiAi

open Std Spool Server

namespace Blocks

/-- The scrape events of a story, and in between, as `none`, the polls that told the pane
gone. -/
def marks (h : List (PaneInput ⊕ Scraped)) : List (Option Scraped) :=
  h.filterMap fun
    | .inr ev => some (some ev)
    | .inl (.unlisted true) => some none
    | .inl _ => none

/-- An agent that appears, changes its state and leaves if `left`, and the polls without
the pane that follow. -/
structure Block where
  agent : String
  states : List AgentState
  left : Bool
  gone : ℕ
  deriving DecidableEq, Repr

namespace Block

def events (b : Block) : List Scraped :=
  (b.agent, .unknown) :: b.states.map (b.agent, ·) ++ if b.left then [(b.agent, .exited)] else []

def marks (b : Block) : List (Option Scraped) := b.events.map some ++ List.replicate b.gone none

/-- The agent changes between the states a screen can show. -/
def Proper (b : Block) : Prop := ∀ state ∈ b.states, state ∈ [.working, .needsInput, .done]

/-- A next block may follow. -/
def Over (b : Block) : Prop := b.left ∨ 0 < b.gone

end Block

/-- Blocks of which all but the last are over. -/
def Grammatical (ms : List (Option Scraped)) : Prop :=
  ∃ (n : ℕ) (blocks : List Block), ms = List.replicate n none ++ blocks.flatMap Block.marks ∧
    (∀ b ∈ blocks, b.Proper) ∧ ∀ b ∈ blocks.dropLast, b.Over

/-- The agent of the block that is not over. -/
def current (ms : List (Option Scraped)) : Option String :=
  match ms.getLast? with
  | some (some (agent, state)) => if state = .exited then none else some agent
  | _ => none

/-- How many dumps in a row, up to the end of a story, did not show an agent. -/
def unmatched (agent : String) (h : List (PaneInput ⊕ Scraped)) : ℕ :=
  h.foldl (fun
    | n, .inl (.dump rules info screen _) => if rules.fits agent info screen then 0 else n + 1
    | n, _ => n) 0

/-- No hook record of a pane is ever read. -/
def NoRecord (p : PaneRef) (is : List Input) : Prop :=
  ∀ nowMs a read, .tick nowMs a ∈ is → a.read = .ok read → ∀ x ∈ read.records, x.2.pane ≠ p

section Grammar

variable {ms : List (Option Scraped)} {agent : String}

/-- All blocks are over. -/
def Closed (ms : List (Option Scraped)) : Prop :=
  ∃ (n : ℕ) (blocks : List Block), ms = List.replicate n none ++ blocks.flatMap Block.marks ∧
    ∀ b ∈ blocks, b.Proper ∧ b.Over

/-- The last block, of `agent`, is not over. -/
def Open (agent : String) (ms : List (Option Scraped)) : Prop :=
  ∃ before states, Closed before ∧ ms = before ++ (⟨agent, states, false, 0⟩ : Block).marks ∧
    (⟨agent, states, false, 0⟩ : Block).Proper

theorem closed_nil : Closed [] := ⟨0, [], rfl, nofun⟩

theorem Closed.block (h : Closed ms) {b : Block} (hp : b.Proper) (ho : b.Over) :
    Closed (ms ++ b.marks) := by
  obtain ⟨n, blocks, rfl, hblocks⟩ := h
  refine ⟨n, blocks ++ [b], by simp [List.append_assoc], ?_⟩
  rintro x hx
  rcases List.mem_append.mp hx with hx | hx
  · exact hblocks x hx
  · exact List.mem_singleton.mp hx ▸ ⟨hp, ho⟩

theorem Closed.appear (h : Closed ms) (agent : String) : Open agent (ms ++ [some (agent, .unknown)]) :=
  ⟨ms, [], h, rfl, nofun⟩

theorem Open.change (h : Open agent ms) {state : AgentState}
    (hs : state ∈ [AgentState.working, .needsInput, .done]) :
    Open agent (ms ++ [some (agent, state)]) := by
  obtain ⟨before, states, hb, rfl, hp⟩ := h
  refine ⟨before, states ++ [state], hb, by simp [Block.marks, Block.events], ?_⟩
  rintro x hx
  rcases List.mem_append.mp hx with hx | hx
  · exact hp x hx
  · exact List.mem_singleton.mp hx ▸ hs

theorem Open.leave (h : Open agent ms) : Closed (ms ++ [some (agent, .exited)]) := by
  obtain ⟨before, states, hb, rfl, hp⟩ := h
  have hclosed : Closed (before ++ (⟨agent, states, true, 0⟩ : Block).marks) :=
    hb.block hp (.inl rfl)
  simpa [Block.marks, Block.events] using hclosed

theorem Open.gone (h : Open agent ms) : Closed (ms ++ [none]) := by
  obtain ⟨before, states, hb, rfl, hp⟩ := h
  have hclosed : Closed (before ++ (⟨agent, states, false, 1⟩ : Block).marks) :=
    hb.block hp (.inr Nat.one_pos)
  simpa [Block.marks, Block.events] using hclosed

theorem Closed.gone (h : Closed ms) : Closed (ms ++ [none]) := by
  obtain ⟨n, blocks, rfl, hblocks⟩ := h
  rcases List.eq_nil_or_concat' blocks with rfl | ⟨blocks, b, rfl⟩
  · exact ⟨n + 1, [], by simp [List.replicate_succ'], nofun⟩
  · have hbefore : Closed (List.replicate n none ++ blocks.flatMap Block.marks) :=
      ⟨n, blocks, rfl, fun x hx => hblocks x (List.mem_append_left _ hx)⟩
    obtain ⟨hp, -⟩ := hblocks b (by simp)
    have hclosed := hbefore.block (b := { b with gone := b.gone + 1 }) hp (.inr (Nat.succ_pos _))
    simpa [Block.marks, Block.events, List.replicate_succ', List.append_assoc] using hclosed

theorem Closed.grammatical (h : Closed ms) : Grammatical ms := by
  obtain ⟨n, blocks, rfl, hblocks⟩ := h
  exact ⟨n, blocks, rfl, fun b hb => (hblocks b hb).1,
    fun b hb => (hblocks b (List.mem_of_mem_dropLast hb)).2⟩

theorem Open.grammatical (h : Open agent ms) : Grammatical ms := by
  obtain ⟨before, states, ⟨n, blocks, rfl, hblocks⟩, rfl, hp⟩ := h
  refine ⟨n, blocks ++ [⟨agent, states, false, 0⟩], by simp [List.append_assoc], ?_, ?_⟩
  · rintro x hx
    rcases List.mem_append.mp hx with hx | hx
    · exact (hblocks x hx).1
    · exact List.mem_singleton.mp hx ▸ hp
  · rintro x hx
    rw [List.dropLast_concat] at hx
    exact (hblocks x hx).2

theorem current_concat (ms : List (Option Scraped)) (x : Option Scraped) : current (ms ++ [x]) =
    match x with
    | some (agent, state) => if state = .exited then none else some agent
    | none => none := by
  rw [current, List.getLast?_concat]
  cases x <;> rfl

theorem Open.current (h : Open agent ms) : current ms = some agent := by
  obtain ⟨before, states, -, rfl, hp⟩ := h
  rcases List.eq_nil_or_concat' states with rfl | ⟨states, state, rfl⟩
  · exact current_concat before (some (agent, .unknown))
  · have hstate : state ≠ .exited := by
      rintro rfl
      simpa using hp .exited (by simp)
    have hmarks : (⟨agent, states ++ [state], false, 0⟩ : Block).marks =
        (⟨agent, states, false, 0⟩ : Block).marks ++ [some (agent, state)] := by
      simp [Block.marks, Block.events]
    rw [hmarks, ← List.append_assoc, current_concat]
    exact if_neg hstate

theorem Closed.current (h : Closed ms) : current ms = none := by
  obtain ⟨n, blocks, rfl, hblocks⟩ := h
  rcases List.eq_nil_or_concat' blocks with rfl | ⟨blocks, b, rfl⟩
  · rcases n with _ | n
    · rfl
    · simp [Blocks.current, List.replicate_succ']
  · obtain ⟨-, hover⟩ := hblocks b (by simp)
    rcases hgone : b.gone with _ | gone
    · have hleft : b.left = true := hover.resolve_right (by simp [hgone])
      have hmarks : b.marks = ((b.agent, AgentState.unknown) :: b.states.map (b.agent, ·)).map some ++
          [some (b.agent, .exited)] := by
        simp [Block.marks, Block.events, hgone, hleft]
      rw [List.flatMap_append, List.flatMap_singleton, hmarks, ← List.append_assoc,
        ← List.append_assoc, current_concat]
      rfl
    · have hmarks : b.marks = b.events.map some ++ List.replicate gone none ++ [none] := by
        simp [Block.marks, hgone, List.replicate_succ']
      rw [List.flatMap_append, List.flatMap_singleton, hmarks, ← List.append_assoc,
        ← List.append_assoc, current_concat]

end Grammar

section Logs

variable {lib : ScrapeLib} {p : PaneRef} {s : Server} {m m' : PaneMemory}
  {h : List (PaneInput ⊕ Scraped)}

theorem marks_append (h h' : List (PaneInput ⊕ Scraped)) : marks (h ++ h') = marks h ++ marks h' :=
  List.filterMap_append

@[simp] theorem marks_outputs (out : List Scraped) : marks (out.map .inr) = out.map some := by
  simp [marks, List.filterMap_map]

/-- The marks of one more step. -/
theorem marks_snoc (i : PaneInput) (out : List Scraped) :
    marks (h ++ .inl i :: out.map .inr) = marks h ++ marks [.inl i] ++ out.map some := by
  rw [List.append_cons, marks_append, marks_append, marks_outputs]

/-- The scrape events are the marks but the polls. -/
theorem told_eq_marks (h : List (PaneInput ⊕ Scraped)) : told h = (marks h).filterMap id := by
  induction h with
  | nil => rfl
  | cons x h ih =>
    have happend : told ([x] ++ h) = told [x] ++ told h := told_append _ _
    have hmarks : marks ([x] ++ h) = marks [x] ++ marks h := marks_append _ _
    rw [← List.singleton_append, happend, hmarks, List.filterMap_append, ih]
    congr 1
    match x with
    | .inr ev => rfl
    | .inl (.unlisted true) => rfl
    | .inl (.unlisted false) => rfl
    | .inl (.hook ..) => rfl
    | .inl .listed => rfl
    | .inl (.dump ..) => rfl
    | .inl .newRules => rfl

theorem unmatched_append_outputs (agent : String) (out : List Scraped) :
    unmatched agent (h ++ out.map .inr) = unmatched agent h := by
  rw [unmatched, List.foldl_append, ← unmatched]
  generalize unmatched agent h = n
  induction out with
  | nil => rfl
  | cons _ out ih => exact ih

theorem unmatched_snoc (agent : String) (i : PaneInput) (out : List Scraped) :
    unmatched agent (h ++ .inl i :: out.map .inr) = unmatched agent (h ++ [.inl i]) := by
  rw [List.append_cons, unmatched_append_outputs]

theorem unmatched_dump (agent : String) (rules : CompiledRules) (info : PaneInfo) (screen : String)
    (nowMs : ℕ) : unmatched agent (h ++ [.inl (.dump rules info screen nowMs)]) =
      if rules.fits agent info screen then 0 else unmatched agent h + 1 := by
  rw [unmatched, List.foldl_append]
  rfl

/-- A pane is bound by a scrape exactly while a block is open, and counts the dumps that
did not show its agent. -/
structure Tracks (h : List (PaneInput ⊕ Scraped)) (m : PaneMemory) : Prop where
  free : m.binding = none → Closed (marks h)
  bound : ∀ b, m.binding = some b → b.fromHook = false ∧ m.listed ∧ Open b.agent (marks h) ∧
    unmatched b.agent h = b.misses ∧ b.misses < missesToExit

/-- An observed screen is reported in a state of a block. -/
theorem observe_states {rules : CompiledRules} {agent screen : String}
    {history : Option PaneScrape} {nowMs : ℕ} {state : AgentState}
    (hs : (PaneMemory.observe lib rules agent history screen nowMs).2 = some state) :
    state ∈ [AgentState.working, .needsInput, .done] := by
  have hcase := PaneMemory.observeCase lib rules agent history screen nowMs
  generalize PaneMemory.observe lib rules agent history screen nowMs = r at hs hcase
  cases hcase with
  | changed =>
    split_ifs at hs
    cases hs
    simp
  | settled _ _ _ _ hstate =>
    split_ifs at hs
    cases hs
    rcases PaneMemory.settledState_mem hstate with rfl | rfl <;> simp
  | _ => cases hs

theorem Open.reports {agent : String} {ms : List (Option Scraped)} (ho : Open agent ms)
    {state : Option AgentState} (hs : ∀ x, state = some x → x ∈ [AgentState.working, .needsInput, .done]) :
    Open agent (ms ++ (PaneMemory.reports agent state).map some) := by
  cases state with
  | none => simpa [PaneMemory.reports] using ho
  | some x => exact ho.change (hs x rfl)

/-- A dump keeps the blocks. -/
theorem Tracks.dump {rules : CompiledRules} {info : PaneInfo} {screen : String} {nowMs : ℕ}
    (ht : Tracks h m) (hlisted : m.listed) :
    Tracks (h ++ .inl (.dump rules info screen nowMs) ::
        (m.step lib (.dump rules info screen nowMs)).2.map .inr)
      (m.step lib (.dump rules info screen nowMs)).1 := by
  have hcase := PaneMemory.dumpCase lib m rules info screen nowMs
  generalize m.step lib (.dump rules info screen nowMs) = r at hcase
  have hmarks : marks [.inl (.dump rules info screen nowMs)] = [] := rfl
  cases hcase with
  | @hook b hb hh => cases hh.symm.trans (ht.bound b hb).1
  | @kept b hb hh hfit =>
    obtain ⟨-, -, hopen, -, -⟩ := ht.bound b hb
    refine ⟨nofun, ?_⟩
    rintro _ ⟨⟩
    refine ⟨hh, hlisted, ?_, ?_, Nat.two_pos⟩
    · rw [marks_snoc, hmarks, List.append_nil]
      exact hopen.reports fun x hx => observe_states hx
    · rw [unmatched_snoc, unmatched_dump, if_pos hfit]
  | @missed b hb hh hfit hx =>
    obtain ⟨-, -, hopen, hcount, -⟩ := ht.bound b hb
    refine ⟨nofun, ?_⟩
    rintro _ ⟨⟩
    refine ⟨hh, hlisted, ?_, ?_, hx⟩
    · simpa [marks_append, hmarks] using hopen
    · rw [unmatched_snoc, unmatched_dump, if_neg (by simp [hfit]), hcount]
  | @left b hb hh hfit hx =>
    obtain ⟨-, -, hopen, -, -⟩ := ht.bound b hb
    refine ⟨fun _ => ?_, nofun⟩
    rw [marks_snoc, hmarks, List.append_nil]
    exact hopen.leave
  | nothing hb hf =>
    refine ⟨fun _ => ?_, fun b he => by cases hb.symm.trans he⟩
    simpa [marks_append, hmarks] using ht.free hb
  | held hb hf hh =>
    refine ⟨fun _ => ?_, fun b he => by cases hb.symm.trans he⟩
    simpa [marks_append, hmarks] using ht.free hb
  | @appeared agent hb hf hh =>
    refine ⟨nofun, ?_⟩
    rintro _ ⟨⟩
    refine ⟨rfl, hlisted, ?_, ?_, Nat.two_pos⟩
    · rw [marks_snoc, hmarks, List.append_nil, List.map_cons, List.append_cons]
      exact ((ht.free hb).appear agent).reports fun x hx => observe_states hx
    · rw [unmatched_snoc, unmatched_dump, if_pos (by simp [CompiledRules.fits, hf])]

/-- Without hooks every input keeps the blocks. -/
theorem Tracks.step {i : PaneInput} (ht : Tracks h m) (hi : m.Enabled i)
    (hhook : ∀ agent exited, i ≠ .hook agent exited) :
    Tracks (h ++ .inl i :: (m.step lib i).2.map .inr) (m.step lib i).1 := by
  cases i with
  | hook agent exited => exact absurd rfl (hhook agent exited)
  | listed =>
    refine ⟨fun hb => ?_, fun b hb => ?_⟩
    · simpa [PaneMemory.step, marks] using ht.free hb
    · obtain ⟨hh, -, hopen, hcount, hlt⟩ := ht.bound b hb
      refine ⟨hh, rfl, by simpa [PaneMemory.step, marks] using hopen, ?_, hlt⟩
      rw [unmatched_snoc]
      simpa [unmatched] using hcount
  | unlisted told =>
    refine ⟨fun _ => ?_, by rintro _ ⟨⟩⟩
    simp only [PaneMemory.step, List.map_nil, marks_append]
    cases told with
    | false =>
      -- what was bound was listed, and is dropped only when zellij tells
      have hb : m.binding = none := by
        by_contra hne
        obtain ⟨b, hb⟩ := Option.ne_none_iff_exists'.mp hne
        simp [PaneMemory.Enabled, (ht.bound b hb).2.1] at hi
      simpa [marks] using ht.free hb
    | true =>
      cases hb : m.binding with
      | none => exact (ht.free hb).gone
      | some b => exact (ht.bound b hb).2.2.1.gone
  | dump rules info screen nowMs => exact ht.dump hi
  | newRules =>
    refine ⟨fun hb => ?_, fun b hb => ?_⟩
    · simpa [PaneMemory.step, marks] using ht.free hb
    · obtain ⟨hh, hlisted, hopen, hcount, hlt⟩ := ht.bound b hb
      refine ⟨hh, hlisted, by simpa [PaneMemory.step, marks] using hopen, ?_, hlt⟩
      rw [unmatched_snoc]
      simpa [unmatched] using hcount

theorem tracks_logs (hl : PaneMemory.Logs lib m h m') (hm : m.binding = none)
    (hhook : ∀ agent exited, .inl (.hook agent exited) ∉ h) : Tracks h m' := by
  induction hl with
  | nil => exact ⟨fun _ => closed_nil, fun b hb => by cases hm.symm.trans hb⟩
  | snoc i _ hi ih =>
    refine (ih fun agent exited hmem => hhook agent exited (by simp [hmem])).step hi ?_
    rintro agent exited rfl
    exact hhook agent exited (by simp)

/-- The agent of an open block is the one bound. -/
theorem Tracks.current (ht : Tracks h m) : current (marks h) = m.binding.map (·.agent) := by
  cases hb : m.binding with
  | none => exact (ht.free hb).current
  | some b => exact (ht.bound b hb).2.2.1.current

theorem Tracks.grammatical (ht : Tracks h m) : Grammatical (marks h) := by
  cases hb : m.binding with
  | none => exact (ht.free hb).grammatical
  | some b => exact (ht.bound b hb).2.2.1.grammatical

theorem head?_logs (hl : PaneMemory.Logs lib m h m') (ev : Scraped) : h.head? ≠ some (.inr ev) := by
  induction hl with
  | nil => simp
  | @snoc _ h i _ _ ih =>
    cases h with
    | nil => simp
    | cons x h => simpa using ih

theorem exited_not_mem_reports {rules : CompiledRules} {agent screen : String}
    {history : Option PaneScrape} {nowMs : ℕ} (name : String) :
    (name, .exited) ∉ PaneMemory.reports agent
      (PaneMemory.observe lib rules agent history screen nowMs).2 := by
  intro hmem
  obtain ⟨state, hstate, he⟩ := Option.map_eq_some_iff.mp (Option.mem_toList.mp hmem)
  obtain ⟨-, rfl⟩ := Prod.mk.inj he
  simpa using observe_states hstate

/-- A dump during a block brings an exit exactly when too many dumps did not show the agent. -/
theorem exit_iff {pre post : List (PaneInput ⊕ Scraped)} {rules : CompiledRules} {info : PaneInfo}
    {screen agent : String} {nowMs : ℕ} (hl : PaneMemory.Logs lib m h m') (hm : m.binding = none)
    (hhook : ∀ agent exited, .inl (.hook agent exited) ∉ h)
    (hh : h = pre ++ .inl (.dump rules info screen nowMs) :: post)
    (hcurrent : current (marks pre) = some agent) :
    post.head? = some (.inr (agent, .exited)) ↔
      unmatched agent (pre ++ [.inl (.dump rules info screen nowMs)]) = missesToExit := by
  obtain ⟨m₁, rest, hpre, -, rfl, hrest⟩ := hl.cut hh
  have ht := tracks_logs hpre hm fun agent exited hmem => hhook agent exited (by simp [hh, hmem])
  rw [ht.current] at hcurrent
  obtain ⟨b, hb, rfl⟩ := Option.map_eq_some_iff.mp hcurrent
  obtain ⟨hscrape, -, -, hcount, hlt⟩ := ht.bound b hb
  rw [unmatched_dump, hcount]
  have hrest := head?_logs hrest
  have hcase := PaneMemory.dumpCase lib m₁ rules info screen nowMs
  generalize m₁.step lib (.dump rules info screen nowMs) = r at hcase hrest
  cases hcase with
  | hook hb' hh' =>
    obtain rfl := Option.some.inj (hb.symm.trans hb')
    cases hh'.symm.trans hscrape
  | kept hb' hh' hfit =>
    obtain rfl := Option.some.inj (hb.symm.trans hb')
    rw [if_pos hfit]
    refine iff_of_false (fun hhead => ?_) (by decide)
    have hnot := @exited_not_mem_reports lib rules b.agent screen m₁.history nowMs b.agent
    generalize PaneMemory.reports b.agent _ = out at hhead hnot
    cases out with
    | nil => exact hrest _ hhead
    | cons ev out =>
      simp only [List.map_cons, List.cons_append, List.head?_cons, Option.some.injEq,
        Sum.inr.injEq] at hhead
      exact hnot (hhead ▸ List.mem_cons_self)
  | missed hb' hh' hfit hx =>
    obtain rfl := Option.some.inj (hb.symm.trans hb')
    rw [if_neg (by simp [hfit])]
    exact iff_of_false (hrest _) hx.ne
  | left hb' hh' hfit hx =>
    obtain rfl := Option.some.inj (hb.symm.trans hb')
    rw [if_neg (by simp [hfit])]
    exact iff_of_true rfl (Nat.le_antisymm hlt hx)
  | nothing hb' => cases hb.symm.trans hb'
  | held hb' => cases hb.symm.trans hb'
  | appeared hb' => cases hb.symm.trans hb'

/-- An exit is told right after the dump that was one too many. -/
theorem of_exit {pre post : List (PaneInput ⊕ Scraped)} {agent : String}
    (hl : PaneMemory.Logs lib m h m') (hm : m.binding = none)
    (hhook : ∀ agent exited, .inl (.hook agent exited) ∉ h)
    (hh : h = pre ++ .inr (agent, .exited) :: post) :
    ∃ before rules info screen nowMs, pre = before ++ [.inl (.dump rules info screen nowMs)] ∧
      current (marks before) = some agent ∧ unmatched agent pre = missesToExit := by
  obtain ⟨before, i, o₁, o₂, m₁, rfl, hl₁, hi, hout⟩ := hl.answer hh
  have ht := tracks_logs hl₁ hm fun agent exited hmem => hhook agent exited (by simp [hh, hmem])
  have hmem : (agent, AgentState.exited) ∈ (m₁.step lib i).2 := by simp [hout]
  cases i with
  | hook agent exited => cases exited <;> cases hmem
  | listed => cases hmem
  | unlisted told => cases hmem
  | newRules => cases hmem
  | dump rules info screen nowMs =>
    have hcase := PaneMemory.dumpCase lib m₁ rules info screen nowMs
    generalize m₁.step lib (.dump rules info screen nowMs) = r at hcase hmem hout
    cases hcase with
    | hook => exact absurd hmem (exited_not_mem_reports _)
    | kept => exact absurd hmem (exited_not_mem_reports _)
    | missed => cases hmem
    | @left b hb hh' hfit hx =>
      obtain ⟨-, -, -, hcount, hlt⟩ := ht.bound b hb
      obtain ⟨rfl, -⟩ := Prod.mk.inj (List.mem_singleton.mp hmem)
      obtain ⟨rfl, -⟩ | ⟨-, he⟩ := List.singleton_eq_append_iff.mp hout
      · refine ⟨before, rules, info, screen, nowMs, rfl, ?_, ?_⟩
        · rw [ht.current, hb, Option.map_some]
        · rw [unmatched_snoc, unmatched_dump, if_neg (by simp [hfit]), hcount]
          exact Nat.le_antisymm hlt hx
      · cases he
    | nothing => cases hmem
    | held => cases hmem
    | appeared =>
      rcases List.mem_cons.mp hmem with he | hmem
      · cases he
      · exact absurd hmem (exited_not_mem_reports _)

/-- No input lets a binding be missed too often. -/
theorem misses_lt {i : PaneInput} (hm : ∀ b, m.binding = some b → b.misses < missesToExit) :
    ∀ b, (m.step lib i).1.binding = some b → b.misses < missesToExit := by
  cases i with
  | hook agent exited =>
    cases exited with
    | true => nofun
    | false =>
      rintro _ ⟨⟩
      exact Nat.two_pos
  | listed => exact hm
  | unlisted told => nofun
  | newRules => exact hm
  | dump rules info screen nowMs =>
    have hcase := PaneMemory.dumpCase lib m rules info screen nowMs
    generalize m.step lib (.dump rules info screen nowMs) = r at hcase
    cases hcase with
    | hook => exact hm
    | kept =>
      rintro _ ⟨⟩
      exact Nat.two_pos
    | missed _ _ _ hx =>
      rintro _ ⟨⟩
      exact hx
    | left => nofun
    | nothing => exact hm
    | held => exact hm
    | appeared =>
      rintro _ ⟨⟩
      exact Nat.two_pos

end Logs

section Run

variable {lib : ScrapeLib} {p : PaneRef}

theorem not_mem_hook {s : Server} {is : List Input} (hn : NoRecord p is) (agent : String)
    (exited : Bool) : .inl (.hook agent exited) ∉ s.stories lib p is := by
  intro hmem
  obtain ⟨s', i, hi, hmem⟩ := Machine.exists_of_mem_outputs hmem
  cases i with
  | app b msg =>
    cases msg with
    | setRules rules =>
      simp only [story] at hmem
      split at hmem <;> simp at hmem
    | _ => cases hmem
  | tick nowMs a =>
    simp only [story, List.mem_append, List.mem_map, Sum.inl.injEq, exists_eq_right] at hmem
    rcases hmem with (hmem | hmem) | hmem
    · obtain ⟨-, read, hread, x, hx, hp⟩ := Evidence.mem_hookInputs hmem
      exact hn nowMs a read hi hread x hx hp
    · obtain he | ⟨_, he⟩ := Evidence.mem_pollInputs hmem <;> cases he
    · split_ifs at hmem
      · obtain ⟨s', target, -, hmem⟩ := Machine.exists_of_mem_outputs hmem
        obtain ⟨_, _, _, he⟩ := Evidence.mem_visit hmem
        cases he
      · cases hmem

/-- The scrape events of a pane without hooks come in blocks; a block ends with an exit
exactly when too many dumps in a row did not show its agent. -/
theorem grammar (lib : ScrapeLib) (zellij : Bool) (ack : ℕ) (rules : CompiledRules) :
    (∀ is q b, (Machine.run (step lib) (.new zellij ack rules) is).binding q = some b →
      b.misses < missesToExit ∧ b.misses + 1 < 2 ^ 8) ∧
    ∀ p is, NoRecord p is → ∃ h, h = (Server.new zellij ack rules).stories lib p is ∧
      (Machine.outputs (step lib) (.new zellij ack rules) is).filterMap (·.scraped p) =
        (marks h).filterMap id ∧
      Grammatical (marks h) ∧
      (∀ pre rules info screen nowMs post agent,
        h = pre ++ .inl (.dump rules info screen nowMs) :: post →
        current (marks pre) = some agent →
        (post.head? = some (.inr (agent, .exited)) ↔
          unmatched agent (pre ++ [.inl (.dump rules info screen nowMs)]) = missesToExit)) ∧
      ∀ pre agent post, h = pre ++ .inr (agent, .exited) :: post →
        ∃ before rules info screen nowMs, pre = before ++ [.inl (.dump rules info screen nowMs)] ∧
          current (marks before) = some agent ∧ unmatched agent pre = missesToExit := by
  have hnew : Settling.Backed (.new zellij ack rules) := Settling.backed_new zellij ack rules
  have hfree (q : PaneRef) : ((Server.new zellij ack rules).memory q).binding = none := by
    simp [memory, Server.new, binding]
  constructor
  · intro is q b hb
    have hrun := (@logs_run lib q _ hnew is).invariant
      (P := fun _ m => ∀ b, m.binding = some b → b.misses < missesToExit)
      (fun b hb => by cases (hfree q).symm.trans hb) fun _ _ _ hm _ => misses_lt hm
    exact ⟨hrun b hb, Nat.lt_of_le_of_lt (hrun b hb) (by decide)⟩
  · intro p is hn
    have hl := @logs_run lib p _ hnew is
    have hhook := @not_mem_hook lib p (.new zellij ack rules) is hn
    refine ⟨_, rfl, ?_, (tracks_logs hl (hfree p) hhook).grammatical, ?_, ?_⟩
    · rw [← told_eq_marks, told_stories]
    · intro pre rules info screen nowMs post agent hh hcurrent
      exact exit_iff hl (hfree p) hhook hh hcurrent
    · intro pre agent post hh
      exact of_exit hl (hfree p) hhook hh

open Settling in
/-- An agent that appears and is back at the shell in two dumps. -/
theorem grammar_left : ∃ is : List Input, NoRecord ⟨"work", 1⟩ is ∧
    Grammatical (marks ((Server.new true 0 ⟨[askRule]⟩).stories askLib ⟨"work", 1⟩ is)) ∧
    (Machine.outputs (step askLib) (.new true 0 ⟨[askRule]⟩) is).filterMap
      (·.scraped ⟨"work", 1⟩) = [("claude", .unknown), ("claude", .exited)] := by
  let shell : TickAnswers := { askTick [] with
    panes := fun _ => .ok [⟨1, 0, "tab", "zsh", none, false⟩]
    dump := fun _ => .ok "$" }
  let is : List Input := [.tick 0 (askTick []), .tick 3000 shell, .tick 6000 shell]
  have hn : NoRecord ⟨"work", 1⟩ is := by
    rintro nowMs a read hmem hread x hx -
    simp only [is, List.mem_cons, Input.tick.injEq, List.not_mem_nil, or_false] at hmem
    rcases hmem with ⟨-, rfl⟩ | ⟨-, rfl⟩ | ⟨-, rfl⟩ <;> cases hread <;> cases hx
  obtain ⟨h, rfl, -, hgrammar, -⟩ := (grammar askLib true 0 ⟨[askRule]⟩).2 ⟨"work", 1⟩ is hn
  exact ⟨is, hn, hgrammar, by decide +kernel⟩

end Run

end Blocks

end MultiAi
