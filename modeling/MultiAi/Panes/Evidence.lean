import MultiAi.Panes.Story

/-! # What a hook established

A hook record binds its pane, or holds it after an exit. Both last until there is evidence
to the contrary, unless a poll drops a pane whose session it could not list.
-/

namespace MultiAi

open Std Spool Server

namespace Evidence

/-- What the hooks of a pane say about its agent. -/
inductive Standing where
  | exited
  | bound (agent : String)
  deriving DecidableEq, Repr

/-- A later hook, a screen without an agent or a poll without the pane ends an exit hold. -/
def Releases : PaneInput ⊕ Scraped → Prop
  | .inl (.hook _ exited) => exited = false
  | .inl (.unlisted told) => told
  | .inl (.dump rules info screen _) => rules.identify info.title info.command screen = none
  | _ => False

/-- A later hook or a poll without the pane ends a hook binding. -/
def Unbinds : PaneInput ⊕ Scraped → Prop
  | .inl (.hook ..) => True
  | .inl (.unlisted told) => told
  | _ => False

/-- After an exit no scrape event comes before the hold is released, and after any other
hook the pane is bound to its agent while nothing unbinds it. -/
structure Remembers (lib : ScrapeLib) (p : PaneRef) (s : Server) (is : List Input) : Prop where
  exited : ∀ (pre : List (PaneInput ⊕ Scraped)) agent mid ev post,
    s.stories lib p is = pre ++ .inl (.hook agent true) :: mid ++ .inr ev :: post →
    ∃ x ∈ mid, Releases x
  bound : ∀ (pre : List (PaneInput ⊕ Scraped)) agent mid,
    s.stories lib p is = pre ++ .inl (.hook agent false) :: mid → (∀ x ∈ mid, ¬ Unbinds x) →
    (Machine.run (step lib) s is).binding p = some ⟨agent, true, 0⟩

/-- What is established after one more element of the story. -/
def standing (st : Option Standing) : PaneInput ⊕ Scraped → Option Standing
  | .inl (.hook agent exited) => some (if exited then .exited else .bound agent)
  | .inl (.unlisted told) => if told then none else st
  | .inl (.dump rules info screen _) =>
    if st = some .exited ∧ rules.identify info.title info.command screen = none then none else st
  | _ => st

/-- What a story establishes. -/
def established (h : List (PaneInput ⊕ Scraped)) : Option Standing := h.foldl standing none

/-- When the panes of a live session cannot be listed, the last list of the session has
the pane, or nothing is established about it. -/
def Keeps (p : PaneRef) (s : Server) (st : Option Standing) : Input → Prop
  | .tick nowMs a => ∀ sessions e, s.polls nowMs a = some sessions →
    sessionLive sessions p.session → a.panes p.session = .error e →
    paneExists s.panes p ∨ ((s.hookInputs p a).map .inl).foldl standing st = none
  | .app .. => True

/-- The memory of a pane bears out what is established. -/
def Holds (m : PaneMemory) : Option Standing → Prop
  | none => True
  | some .exited => m.binding = none ∧ m.held
  | some (.bound agent) => m.binding = some ⟨agent, true, 0⟩

/-- Nothing is established about a pane when a poll drops it untold. -/
def Careful (h : List (PaneInput ⊕ Scraped)) : Prop :=
  ∀ q post, h = q ++ .inl (.unlisted false) :: post → established q = none

variable {lib : ScrapeLib} {p : PaneRef} {s : Server} {m m' : PaneMemory} {st : Option Standing}
  {h : List (PaneInput ⊕ Scraped)}

theorem established_append (h h' : List (PaneInput ⊕ Scraped)) :
    established (h ++ h') = h'.foldl standing (established h) := List.foldl_append

@[simp] theorem foldl_standing_outputs (out : List Scraped) :
    (out.map .inr).foldl standing st = st := by
  induction out with
  | nil => rfl
  | cons _ out ih => exact ih

/-- A dump of a held pane changes nothing but the hold. -/
theorem step_dump_held (hb : m.binding = none) (hh : m.held) (rules : CompiledRules)
    (info : PaneInfo) (screen : String) (nowMs : ℕ) :
    m.step lib (.dump rules info screen nowMs) =
      (if rules.identify info.title info.command screen = none then { m with held := false } else m,
        []) := by
  cases hf : rules.identify info.title info.command screen <;>
    simp [PaneMemory.step, PaneMemory.bind, hb, hf, hh]

/-- A dump of a hook-bound pane keeps the binding. -/
theorem step_dump_hook {agent : String} (hb : m.binding = some ⟨agent, true, 0⟩)
    (rules : CompiledRules) (info : PaneInfo) (screen : String) (nowMs : ℕ) :
    (m.step lib (.dump rules info screen nowMs)).1.binding = some ⟨agent, true, 0⟩ := by
  simp [PaneMemory.step, PaneMemory.bind, hb]

theorem Holds.step (i : PaneInput) (hst : Holds m st) (hi : i = .unlisted false → st = none) :
    Holds (m.step lib i).1 (standing st (.inl i)) := by
  cases i with
  | hook agent exited => cases exited <;> simp [standing, Holds, PaneMemory.step]
  | listed =>
    rcases st with _ | _ | agent
    · trivial
    · exact hst
    · exact hst
  | unlisted told =>
    cases told with
    | false =>
      obtain rfl := hi rfl
      trivial
    | true => trivial
  | dump rules info screen nowMs =>
    rcases st with _ | _ | agent
    · simp [standing, Holds]
    · obtain ⟨hb, hh⟩ := hst
      rw [step_dump_held hb hh]
      by_cases hf : rules.identify info.title info.command screen = none
      · simp [standing, hf, Holds]
      · simp [standing, hf, Holds, hb, hh]
    · exact step_dump_hook hst rules info screen nowMs
  | newRules =>
    rcases st with _ | _ | agent
    · trivial
    · exact hst
    · exact hst

theorem Careful.append {h' : List (PaneInput ⊕ Scraped)} (hc : Careful (h ++ h')) : Careful h := by
  rintro q post rfl
  exact hc q (post ++ h') (List.append_assoc ..)

theorem holds_logs (hl : PaneMemory.Logs lib m h m') (hc : Careful h) : Holds m' (established h) := by
  induction hl with
  | nil => trivial
  | @snoc m' h i _ _ ih =>
    have hi : i = .unlisted false → established h = none := by
      rintro rfl
      exact hc h _ rfl
    rw [established_append, List.foldl_cons, foldl_standing_outputs]
    exact (ih hc.append).step i hi

/-- An exit stands until it is released. -/
theorem established_exited {mid : List (PaneInput ⊕ Scraped)} (hmid : ∀ x ∈ mid, ¬ Releases x) :
    mid.foldl standing (some .exited) = some .exited := by
  induction mid with
  | nil => rfl
  | cons x mid ih =>
    have hx := hmid x List.mem_cons_self
    have hstep : standing (some .exited) x = some .exited := by
      cases x with
      | inr ev => rfl
      | inl i =>
        cases i with
        | hook agent exited =>
          cases exited with
          | false => exact absurd rfl hx
          | true => rfl
        | unlisted told =>
          cases told with
          | false => rfl
          | true => exact absurd rfl hx
        | dump rules info screen nowMs => exact if_neg fun hf => hx hf.2
        | listed => rfl
        | newRules => rfl
    rw [List.foldl_cons, hstep]
    exact ih fun y hy => hmid y (List.mem_cons_of_mem _ hy)

/-- A hook binding stands until something unbinds it. -/
theorem established_bound {agent : String} {mid : List (PaneInput ⊕ Scraped)}
    (hmid : ∀ x ∈ mid, ¬ Unbinds x) :
    mid.foldl standing (some (.bound agent)) = some (.bound agent) := by
  induction mid with
  | nil => rfl
  | cons x mid ih =>
    have hx := hmid x List.mem_cons_self
    have hstep : standing (some (.bound agent)) x = some (.bound agent) := by
      cases x with
      | inr ev => rfl
      | inl i =>
        cases i with
        | hook agent exited => exact absurd trivial hx
        | unlisted told =>
          cases told with
          | false => rfl
          | true => exact absurd rfl hx
        | dump => rfl
        | listed => rfl
        | newRules => rfl
    rw [List.foldl_cons, hstep]
    exact ih fun y hy => hmid y (List.mem_cons_of_mem _ hy)

/-- While an exit stands, no input brings a scrape event. -/
theorem Holds.silent {i : PaneInput} (hst : Holds m st)
    (hexited : standing st (.inl i) = some .exited) : (m.step lib i).2 = [] := by
  cases i with
  | hook agent exited => cases exited <;> rfl
  | listed => rfl
  | unlisted told => rfl
  | dump rules info screen nowMs =>
    simp only [standing] at hexited
    split_ifs at hexited
    subst hexited
    rw [step_dump_held hst.1 hst.2]
  | newRules => rfl

/-- In a careful story no scrape event comes before the release of an exit. -/
theorem releases_of_logs {pre mid post : List (PaneInput ⊕ Scraped)} {agent : String} {ev : Scraped}
    (hl : PaneMemory.Logs lib m h m') (hc : Careful h)
    (hh : h = pre ++ .inl (.hook agent true) :: mid ++ .inr ev :: post) : ∃ x ∈ mid, Releases x := by
  by_contra hnone
  have hmid : ∀ x ∈ mid, ¬ Releases x := fun x hx hr => hnone ⟨x, hx, hr⟩
  obtain ⟨h₁, i, o₁, o₂, m₁, hq, hl₁, -, hout⟩ := hl.answer hh
  have hstands : established (pre ++ .inl (.hook agent true) :: mid) = some .exited := by
    rw [established_append, List.foldl_cons]
    exact established_exited hmid
  have hexited : standing (established h₁) (.inl i) = some .exited := by
    rw [hq, established_append, List.foldl_cons, foldl_standing_outputs] at hstands
    exact hstands
  have hc₁ : Careful h₁ := by
    rw [hh, hq, List.append_assoc] at hc
    exact hc.append
  rw [(holds_logs hl₁ hc₁).silent hexited] at hout
  simp at hout

section Split

variable {α : Type*} {l l' q post : List α} {x : α}

/-- An element that is not in the right part is in the left part. -/
theorem split_left (h : l ++ l' = q ++ x :: post) (hx : x ∉ l') : ∃ c, l = q ++ x :: c := by
  rcases List.append_eq_append_iff.mp h with ⟨c, rfl, hc⟩ | ⟨c, hl, hc⟩
  · exact absurd (hc ▸ by simp) hx
  · cases c with
    | nil => exact absurd (by simp [← show x :: post = l' from hc]) hx
    | cons y c =>
      obtain ⟨rfl, -⟩ := List.cons.inj hc
      exact ⟨c, hl⟩

/-- An element that is not in the left part is in the right part. -/
theorem split_right (h : l ++ l' = q ++ x :: post) (hx : x ∉ l) :
    ∃ c, q = l ++ c ∧ l' = c ++ x :: post := by
  rcases List.append_eq_append_iff.mp h with ⟨c, rfl, hc⟩ | ⟨c, hl, hc⟩
  · exact ⟨c, rfl, hc⟩
  · cases c with
    | nil => exact ⟨[], by simpa using hl.symm, hc.symm⟩
    | cons y c =>
      obtain ⟨rfl, -⟩ := List.cons.inj hc
      exact absurd (hl ▸ by simp) hx

end Split

section Run

theorem mem_hookInputs {a : TickAnswers} {i : PaneInput} (hi : i ∈ s.hookInputs p a) :
    (∃ agent exited, i = .hook agent exited) ∧
      ∃ read, a.read = .ok read ∧ ∃ x ∈ read.records, x.2.pane = p := by
  unfold hookInputs at hi
  split_ifs at hi
  · split at hi
    · rename_i read hread
      obtain ⟨entry, hmem, hi⟩ := List.mem_flatMap.mp hi
      unfold hookInput at hi
      split_ifs at hi with hp
      · exact ⟨⟨_, _, List.mem_singleton.mp hi⟩, read, hread, entry, hmem, hp⟩
      · cases hi
    · cases hi
  · cases hi

theorem mem_pollInputs {nowMs : ℕ} {a : TickAnswers} {i : PaneInput}
    (hi : i ∈ s.pollInputs p nowMs a) : i = .listed ∨ ∃ told, i = .unlisted told := by
  unfold pollInputs at hi
  split at hi
  · cases hi
  · split_ifs at hi
    · exact .inl (List.mem_singleton.mp hi)
    · exact .inr ⟨_, List.mem_singleton.mp hi⟩

theorem mem_visit {nowMs : ℕ} {a : TickAnswers} {target : PaneRef × PaneInfo} {i : PaneInput}
    (hi : .inl i ∈ (s.visit lib p nowMs a target).2) :
    ∃ rules info screen, i = .dump rules info screen nowMs := by
  simp only [visit, List.mem_append, List.mem_map, reduceCtorEq, and_false, exists_false,
    or_false] at hi
  split_ifs at hi
  · cases hd : a.dump p with
    | error e => simp [hd] at hi
    | ok screen =>
      rw [hd] at hi
      exact ⟨_, _, _, Sum.inl.inj (List.mem_singleton.mp hi)⟩
  · cases hi

/-- A poll drops a pane untold only if the list of its session failed and lacked it before. -/
theorem untold_pollInputs {nowMs : ℕ} {a : TickAnswers} {q post : List PaneInput}
    (h : s.pollInputs p nowMs a = q ++ .unlisted false :: post) :
    q = [] ∧ ∃ sessions e, s.polls nowMs a = some sessions ∧ sessionLive sessions p.session ∧
      a.panes p.session = .error e ∧ ¬ paneExists s.panes p := by
  unfold pollInputs at h
  cases hs : s.polls nowMs a with
  | none => simp [hs] at h
  | some sessions =>
    simp only [hs] at h
    split_ifs at h with hlisted
    · obtain ⟨-, he⟩ | ⟨-, he⟩ := List.singleton_eq_append_iff.mp h <;> cases he
    · obtain ⟨rfl, he⟩ | ⟨-, he⟩ := List.singleton_eq_append_iff.mp h
      · simp only [List.cons.injEq, PaneInput.unlisted.injEq] at he
        have htold := he.1.symm
        simp only [toldGone, Bool.or_eq_false_iff, Bool.not_eq_false'] at htold
        obtain ⟨hlive, hlacks⟩ := htold
        simp only [pollList, hlive, if_true] at hlisted
        cases hp : a.panes p.session with
        | ok ps =>
          simp only [hp, Except.toOption, Option.any_some] at hlisted hlacks
          exact absurd (by simpa using hlacks) hlisted
        | error e =>
          rw [hp] at hlisted
          exact ⟨rfl, sessions, e, rfl, hlive, rfl, hlisted⟩
      · cases he

/-- A step drops a pane untold only if the list of its session failed and lacked it before. -/
theorem untold_step {i : Input} {q post : List (PaneInput ⊕ Scraped)} (hk : Keeps p s st i)
    (hq : s.story lib p i = q ++ .inl (.unlisted false) :: post) : q.foldl standing st = none := by
  cases i with
  | app b msg =>
    have hmem : .inl (.unlisted false) ∈ s.story lib p (.app b msg) := hq ▸ by simp
    cases msg with
    | setRules rules =>
      simp only [story] at hmem
      split at hmem <;> simp at hmem
    | _ => cases hmem
  | tick nowMs a =>
    simp only [story] at hq
    obtain ⟨c, hq⟩ := split_left hq fun hmem => by
      split_ifs at hmem
      · obtain ⟨s', target, -, hmem⟩ := Machine.exists_of_mem_outputs hmem
        obtain ⟨_, _, _, he⟩ := mem_visit hmem
        cases he
      · cases hmem
    obtain ⟨c', rfl, hpoll⟩ := split_right hq fun hmem => by
      obtain ⟨i, hi, he⟩ := List.mem_map.mp hmem
      obtain ⟨⟨_, _, rfl⟩, -⟩ := mem_hookInputs hi
      cases he
    obtain ⟨q', r, hinputs, rfl, hr⟩ := List.map_eq_append_iff.mp hpoll
    obtain ⟨i, r', rfl, hi, -⟩ := List.map_eq_cons_iff.mp hr
    cases hi
    obtain ⟨rfl, sessions, e, hs, hlive, herror, hold⟩ := untold_pollInputs hinputs
    rw [List.map_nil, List.append_nil]
    exact (hk sessions e hs hlive herror).resolve_left hold

/-- A run whose polls keep what is established has a careful story. -/
theorem careful_stories {s₀ : Server} {is : List Input}
    (hk : ∀ is₁ i is₂, is = is₁ ++ i :: is₂ →
      Keeps p (Machine.run (step lib) s₀ is₁) (established (s₀.stories lib p is₁)) i) :
    Careful (s₀.stories lib p is) := by
  induction is using List.reverseRecOn with
  | nil =>
    intro q post hq
    simp [stories] at hq
  | append_singleton is i ih =>
    intro q post hq
    have hstories : s₀.stories lib p (is ++ [i]) =
        s₀.stories lib p is ++ (Machine.run (step lib) s₀ is).story lib p i :=
      stories_concat ..
    rw [hstories] at hq
    have hlast := hk is i [] rfl
    have hbefore := ih fun is₁ j is₂ he => hk is₁ j (is₂ ++ [i]) (by simp [he])
    rcases List.append_eq_append_iff.mp hq with ⟨c, rfl, hc⟩ | ⟨c, hl, hc⟩
    · rw [established_append]
      exact untold_step hlast hc
    · cases c with
      | nil =>
        have hnone : ([] : List _).foldl standing (established (s₀.stories lib p is)) = none :=
          untold_step hlast hc.symm
        rwa [hl, List.append_nil] at hnone
      | cons x c =>
        obtain ⟨rfl, -⟩ := List.cons.inj hc
        exact hbefore q c hl

/-- In a run whose polls keep what is established, a hook is remembered until there is
evidence to the contrary. -/
theorem remembers (zellij : Bool) (ack : ℕ) (rules : CompiledRules) (is : List Input)
    (hk : ∀ is₁ i is₂, is = is₁ ++ i :: is₂ →
      Keeps p (Machine.run (step lib) (.new zellij ack rules) is₁)
        (established ((Server.new zellij ack rules).stories lib p is₁)) i) :
    Remembers lib p (.new zellij ack rules) is where
  exited pre agent mid ev post hh :=
    releases_of_logs (logs_run (Settling.backed_new zellij ack rules) is) (careful_stories hk) hh
  bound pre agent mid hh hmid := by
    have hholds := holds_logs (@logs_run lib p _ (Settling.backed_new zellij ack rules) is)
      (careful_stories hk)
    rw [hh, established_append, List.foldl_cons] at hholds
    have hstands : Holds _ (mid.foldl standing (some (.bound agent))) := hholds
    rwa [established_bound hmid] at hstands

end Run

section Lost

open Settling

/-- An end of the session, by hook. -/
def endRecord : SpoolRecord :=
  ⟨0, "claude", "work", 1, .obj [("hook_event_name", .str "SessionEnd")]⟩

/-- A tick that reads the end of the session and cannot list its panes. -/
def endTick : TickAnswers :=
  { askTick [(1, endRecord)] with panes := fun _ => .error "list-panes failed" }

/-- The pane is known when its panes cannot be listed, and the exit is remembered. -/
theorem remembers_known : Remembers askLib ⟨"work", 1⟩ (.new true 0 ⟨[askRule]⟩)
    [.tick 0 (askTick []), .tick 3000 endTick, .tick 6000 (askTick [])] := by
  refine remembers true 0 ⟨[askRule]⟩ _ ?_
  rintro is₁ i is₂ he
  rcases is₁ with _ | ⟨x, _ | ⟨y, _ | ⟨z, is₁⟩⟩⟩ <;>
    simp only [List.nil_append, List.cons_append, List.cons.injEq, List.nil_eq,
      List.append_eq_nil_iff, reduceCtorEq, and_false] at he
  · obtain ⟨rfl, -⟩ := he
    rintro sessions e - - ⟨⟩
  · obtain ⟨rfl, rfl, -⟩ := he
    intro sessions e _ _ _
    exact .inl (by decide +kernel)
  · obtain ⟨rfl, rfl, rfl, -⟩ := he
    rintro sessions e - - ⟨⟩

/-- The poll that cannot list the panes forgets the exit, and the pane is bound again. -/
theorem not_remembers : ¬ ∀ (lib : ScrapeLib) (p : PaneRef) (ack : ℕ) (rules : CompiledRules)
    (is : List Input), Remembers lib p (.new true ack rules) is := by
  intro hall
  have hstory : (Server.new true 0 ⟨[askRule]⟩).stories askLib ⟨"work", 1⟩
      [.tick 0 endTick, .tick 3000 (askTick [])] =
      [] ++ .inl (.hook "claude" true) :: [.inl (.unlisted false), .inl .listed,
        .inl (.dump ⟨[askRule]⟩ askTarget.2 "?" 3000)] ++ .inr ("claude", .unknown) :: [] := by rfl
  obtain ⟨x, hx, hr⟩ := (hall _ _ _ _ _).exited _ _ _ _ _ hstory
  simp only [List.mem_cons, List.not_mem_nil, or_false] at hx
  rcases hx with rfl | rfl | rfl
  · cases hr
  · exact hr
  · have hfound : (CompiledRules.mk [askRule]).identify "claude" none "?" = some "claude" := by decide
    cases hfound.symm.trans hr

end Lost

end Evidence

end MultiAi
