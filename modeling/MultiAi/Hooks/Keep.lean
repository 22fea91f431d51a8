import MultiAi.Hooks.Merge

/-! # What merging and removing keep

Both go through the table event by event. The groups of the user stay where they are, as they
are; what comes in is one group for each event that is installed.
-/

namespace MultiAi.Hooks

open Json

/-- No hook of ours in the lists of the table. -/
def FreeTable (hooks : List (String × Json)) : Prop :=
  ∀ f ∈ hooks, ∀ list, f.2 = .arr list → Free list

/-- What merging makes of the table: an event stays as it is, or its list goes on with an entry
of ours, and events that were not there come last. -/
inductive Merged (command : String) (events : List (String × Bool)) :
    List (String × Json) → List (String × Json) → Prop where
  | added {new : List (String × Json)}
      (h : ∀ f ∈ new, ∃ withMatcher, (f.1, withMatcher) ∈ events ∧
        f.2 = .arr [entry command withMatcher]) : Merged command events [] new
  | same {f : String × Json} {hooks hooks' : List (String × Json)} :
      Merged command events hooks hooks' → Merged command events (f :: hooks) (f :: hooks')
  | listed {event : String} {withMatcher : Bool} {list list' : List Json}
      {hooks hooks' : List (String × Json)} : (event, withMatcher) ∈ events →
      Preserves list list' → Merged command events hooks hooks' →
      Merged command events ((event, .arr list) :: hooks)
        ((event, .arr (list' ++ [entry command withMatcher])) :: hooks')

/-- What removing makes of the table: only a list can go, and only if it is left empty. -/
inductive Cleaned : List (String × Json) → List (String × Json) → Prop where
  | nil : Cleaned [] []
  | other {f : String × Json} {hooks hooks' : List (String × Json)} : f.2.asArr = none →
      Cleaned hooks hooks' → Cleaned (f :: hooks) (f :: hooks')
  | list {event : String} {list list' : List Json} {hooks hooks' : List (String × Json)} :
      Preserves list list' → list' ≠ [] → Cleaned hooks hooks' →
      Cleaned ((event, .arr list) :: hooks) ((event, .arr list') :: hooks')
  | gone {event : String} {list : List Json} {hooks hooks' : List (String × Json)} :
      Preserves list [] → Cleaned hooks hooks' → Cleaned ((event, .arr list) :: hooks) hooks'

section Commands

/-- What has no separator in it lies on one side of it. -/
theorem infix_append_cons {α : Type} {sep : α} {m a b : List α} (hs : sep ∉ m)
    (h : m <:+: a ++ sep :: b) : m <:+: a ∨ m <:+: b := by
  obtain ⟨s, t, h⟩ := h
  obtain ⟨c, rfl, -⟩ | ⟨c, hsm, hc⟩ := List.append_eq_append_iff.mp h
  · exact .inl ⟨s, c, rfl⟩
  · cases c with
    | nil => exact .inl ⟨s, [], by rw [List.append_nil, hsm, List.append_nil]⟩
    | cons x c =>
      cases hc
      obtain ⟨e, rfl, hm⟩ | ⟨e, rfl, hm⟩ := List.append_eq_append_iff.mp hsm
      · exact absurd (by simp [hm]) hs
      · cases e with
        | nil => exact absurd (List.nil_append m ▸ hm ▸ List.mem_cons_self) hs
        | cons x e =>
          cases hm
          exact .inr ⟨e, t, rfl⟩

/-- The part of a command before the agent. -/
def quoted (exe : String) : List Char :=
  '"' :: exe.toList.map fun c => if c = '\\' then '/' else c

theorem toList_hookCommand (exe agent : String) :
    (hookCommand exe agent).toList = quoted exe ++ '"' :: (" hook " ++ agent).toList := by
  simp [hookCommand, quoted]

theorem marked_hookCommand {isAbsolute : String → Bool} {exe : String}
    (h : checkProbeExe isAbsolute exe = .ok ()) (agent : String) :
    Marked (hookCommand exe agent) := by
  have hm : Marked (hookCommand exe "x") := by
    rw [checkProbeExe] at h
    split_ifs at h with ha hm
    exact hm
  rw [Marked, toList_hookCommand] at hm ⊢
  obtain hm | hm := infix_append_cons (by decide) hm
  · exact hm.trans (List.infix_append' [] _ _)
  · exact absurd hm (by decide)

end Commands

section Tables

variable {command event : String} {withMatcher : Bool} {events : List (String × Bool)}
  {list : List Json} {hooks hooks' : List (String × Json)} {v : Json}

theorem mergeEvents_cons (h : mergeEvents command hooks ((event, withMatcher) :: events) =
    .ok hooks') : ∃ list, (lookup hooks event).getD (.arr []) = .arr list ∧
      mergeEvents command
        (set hooks event (.arr (stripOurs list ++ [entry command withMatcher]))) events =
          .ok hooks' := by
  rw [mergeEvents] at h
  split at h
  · exact ⟨_, ‹_›, h⟩
  · cases h

theorem mergeEvents_unlisted (h : mergeEvents command hooks events = .ok hooks')
    (hu : event ∉ events.map Prod.fst) : lookup hooks' event = lookup hooks event := by
  induction events generalizing hooks with
  | nil =>
    cases h
    rfl
  | cons e events ih =>
    obtain ⟨_, _, h⟩ := mergeEvents_cons h
    rw [List.map_cons, List.mem_cons, not_or] at hu
    rw [ih h hu.2, lookup_set, if_neg (Ne.symm hu.1)]

theorem mergeEvents_listed (h : mergeEvents command hooks events = .ok hooks')
    (hn : (events.map Prod.fst).Nodup) (hl : (event, withMatcher) ∈ events) :
    ∃ list, Free list ∧ lookup hooks' event = some (.arr (list ++ [entry command withMatcher])) := by
  induction events generalizing hooks with
  | nil => cases hl
  | cons e events ih =>
    obtain ⟨list, _, h⟩ := mergeEvents_cons h
    obtain ⟨hu, hn⟩ := List.nodup_cons.mp hn
    obtain rfl | hl := List.mem_cons.mp hl
    · refine ⟨stripOurs list, stripOurs_free, ?_⟩
      rw [mergeEvents_unlisted h hu, lookup_set, if_pos rfl]
    · exact ih h hn hl

/-- A table that has our entries already stays as it is. -/
theorem mergeEvents_again (hm : Marked command)
    (h : ∀ e ∈ events, ∃ list, Free list ∧
      lookup hooks e.1 = some (.arr (list ++ [entry command e.2]))) :
    mergeEvents command hooks events = .ok hooks := by
  induction events with
  | nil => rfl
  | cons e events ih =>
    obtain ⟨⟨list, hf, hl⟩, h⟩ := List.forall_mem_cons.mp h
    rw [mergeEvents, hl, Option.getD_some]
    dsimp only
    rw [stripOurs_merged hm hf, set_lookup hl]
    exact ih h

theorem Merged.refl : Merged command events hooks hooks := by
  induction hooks with
  | nil => exact .added nofun
  | cons f hooks ih => exact .same ih

theorem Merged.cons (h : Merged command events hooks hooks') (e : String × Bool) :
    Merged command (e :: events) hooks hooks' := by
  induction h with
  | added h =>
    refine .added fun f hf => ?_
    obtain ⟨w, hw, hv⟩ := h f hf
    exact ⟨w, .tail e hw, hv⟩
  | same _ ih => exact .same ih
  | listed hl hp _ ih => exact .listed (.tail e hl) hp ih

/-- One event after those that follow it. -/
theorem Merged.set (h : Merged command events
      (set hooks event (.arr (stripOurs list ++ [entry command withMatcher]))) hooks')
    (hl : (lookup hooks event).getD (.arr []) = .arr list)
    (hu : event ∉ events.map Prod.fst) :
    Merged command ((event, withMatcher) :: events) hooks hooks' := by
  have hnot (w : Bool) : (event, w) ∉ events := fun hw => hu (List.mem_map_of_mem hw)
  induction hooks generalizing hooks' with
  | nil =>
    cases hl
    cases h with
    | same h =>
      cases h with
      | added h =>
        refine .added (List.forall_mem_cons.mpr ⟨⟨_, .head _, rfl⟩, fun f hf => ?_⟩)
        obtain ⟨w, hw, hv⟩ := h f hf
        exact ⟨w, .tail _ hw, hv⟩
    | listed hw _ _ => exact absurd hw (hnot _)
  | cons f hooks ih =>
    obtain ⟨k, v⟩ := f
    rw [lookup_cons] at hl
    rw [Json.set] at h
    split_ifs at hl h with hk
    · cases hl
      subst hk
      cases h with
      | same h => exact .listed (.head _) preserves_stripOurs (h.cons _)
      | listed hw _ _ => exact absurd hw (hnot _)
    · cases h with
      | same h => exact .same (ih h hl)
      | listed hw hp h => exact .listed (.tail _ hw) hp (ih h hl)

theorem merged_of_mergeEvents (h : mergeEvents command hooks events = .ok hooks')
    (hn : (events.map Prod.fst).Nodup) : Merged command events hooks hooks' := by
  induction events generalizing hooks with
  | nil =>
    cases h
    exact .refl
  | cons e events ih =>
    obtain ⟨list, hl, h⟩ := mergeEvents_cons h
    obtain ⟨hu, hn⟩ := List.nodup_cons.mp hn
    exact (ih h hn).set hl hu

theorem mem_removeEvents {f : String × Json} : f ∈ removeEvents hooks ↔
    ∃ g ∈ hooks, (g.1, stripValue g.2) = f ∧ ∀ list, f.2 = .arr list → list ≠ [] := by
  have hall (v : Json) : v.asArr.all (fun list => decide (list ≠ [])) = true ↔
      ∀ list, v = .arr list → list ≠ [] := by
    cases v <;> simp [asArr]
  rw [removeEvents, List.mem_filter, List.mem_map, hall]
  constructor
  · rintro ⟨⟨g, hg, rfl⟩, h⟩
    exact ⟨g, hg, rfl, h⟩
  · rintro ⟨g, hg, rfl, h⟩
    exact ⟨⟨g, hg, rfl⟩, h⟩

theorem removeEvents_cons (f : String × Json) : removeEvents (f :: hooks) =
    if (stripValue f.2).asArr.all (fun list => decide (list ≠ [])) then
      (f.1, stripValue f.2) :: removeEvents hooks
    else removeEvents hooks := by
  rw [removeEvents, List.map_cons, List.filter_cons]
  rfl

theorem removeEvents_free : FreeTable (removeEvents hooks) := by
  intro f hf list hl
  obtain ⟨g, _, rfl, _⟩ := mem_removeEvents.mp hf
  cases hg : g.2 <;> simp only [hg, stripValue, Json.arr.injEq, reduceCtorEq] at hl
  subst hl
  exact stripOurs_free

theorem stripValue_of_free (h : ∀ list, v = .arr list → Free list) : stripValue v = v := by
  cases v with
  | arr list => rw [stripValue, stripOurs_of_free (h list rfl)]
  | _ => rfl

/-- Without hooks of ours, only the empty lists go. -/
theorem removeEvents_of_free (h : FreeTable hooks) :
    removeEvents hooks = hooks.filter fun f => f.2.asArr.all fun list => list ≠ [] := by
  rw [removeEvents, List.map_congr_left (g := id) fun f hf => ?_, List.map_id]
  rw [stripValue_of_free (h f hf), id]

theorem removeEvents_eq_self (h : FreeTable hooks) :
    removeEvents hooks = hooks ↔ ∀ f ∈ hooks, f.2 ≠ .arr [] := by
  rw [removeEvents_of_free h, List.filter_eq_self]
  refine forall₂_congr fun f _ => ?_
  cases f.2 <;> simp [asArr]

theorem removeEvents_again : removeEvents (removeEvents hooks) = removeEvents hooks := by
  rw [removeEvents_eq_self removeEvents_free]
  intro f hf he
  obtain ⟨_, _, _, hne⟩ := mem_removeEvents.mp hf
  exact hne [] he rfl

theorem cleaned_removeEvents : Cleaned hooks (removeEvents hooks) := by
  induction hooks with
  | nil => exact .nil
  | cons f hooks ih =>
    obtain ⟨event, v⟩ := f
    cases v with
    | arr list =>
      have hp : Preserves list (stripOurs list) := preserves_stripOurs
      by_cases hne : stripOurs list = []
      · rw [removeEvents_cons, if_neg (by simp [stripValue, hne])]
        rw [hne] at hp
        exact .gone hp ih
      · rw [removeEvents_cons, if_pos (by simp [stripValue, hne])]
        exact .list hp hne ih
    | _ => exact .other rfl ih

end Tables

section Documents

variable {isAbsolute : String → Bool} {exe agent command : String} {d m r : Json}
  {events : List (String × Bool)}

theorem mergeHooks_ok (h : mergeHooks d events command = .ok m) : ∃ root hooks,
    d = .obj root ∧ (lookup root "hooks").getD (.obj []) = .obj (table d) ∧
      mergeEvents command (table d) events = .ok hooks ∧
      m = .obj (set root "hooks" (.obj hooks)) := by
  cases d with
  | obj root =>
    rw [mergeHooks] at h
    split at h
    · rename_i hooks ht
      have htable : table (.obj root) = hooks := by
        rw [table, get_obj]
        cases hl : lookup root "hooks" <;> simp_all
      split at h
      · cases h
        exact ⟨root, _, rfl, htable ▸ ht, htable ▸ ‹_›, rfl⟩
      · cases h
    · cases h
  | _ => simp [mergeHooks] at h

theorem table_set (root hooks : List (String × Json)) :
    table (.obj (set root "hooks" (.obj hooks))) = hooks := by
  simp [table, lookup_set]

theorem removeHooks_ok (h : removeHooks d = .ok r) :
    (d.get "hooks" = none ∧ r = d) ∨
      ∃ root, d = .obj root ∧ lookup root "hooks" = some (.obj (table d)) ∧
        r = .obj (set root "hooks" (.obj (removeEvents (table d)))) := by
  cases d with
  | obj root =>
    rw [removeHooks] at h
    split at h
    · cases h
      exact .inl ⟨‹_›, rfl⟩
    · rename_i hooks hl
      have htable : table (.obj root) = hooks := by simp [table, hl]
      cases h
      exact .inr ⟨root, rfl, htable ▸ hl, htable ▸ rfl⟩
    · cases h
  | _ => simp [removeHooks] at h

theorem removeHooks_again (h : removeHooks d = .ok r) : removeHooks r = .ok r := by
  obtain ⟨hd, rfl⟩ | ⟨root, rfl, hl, rfl⟩ := removeHooks_ok h
  · exact h
  · rw [removeHooks, lookup_set, if_pos rfl]
    dsimp only
    rw [removeEvents_again, set_set]

theorem others_set (root : List (String × Json)) (v : Json) :
    others (.obj (set root "hooks" v)) = others (.obj root) := filter_set

theorem removeHooks_table (h : removeHooks d = .ok r) :
    others r = others d ∧ Cleaned (table d) (table r) ∧ FreeTable (table r) := by
  obtain ⟨hd, rfl⟩ | ⟨root, rfl, hl, rfl⟩ := removeHooks_ok h
  · have ht : table r = [] := by rw [table, hd, Option.bind_none, Option.getD_none]
    rw [ht]
    exact ⟨rfl, .nil, nofun⟩
  · rw [table_set]
    exact ⟨others_set root _, cleaned_removeEvents, removeEvents_free⟩

/-- Merging with the command of a checked probe and removing keep what is not ours, and doing
either again changes nothing. -/
theorem merge_and_remove_keep (hexe : checkProbeExe isAbsolute exe = .ok ())
    (hn : (events.map Prod.fst).Nodup) :
    (∀ m, mergeHooks d events (hookCommand exe agent) = .ok m →
      mergeHooks m events (hookCommand exe agent) = .ok m ∧ others m = others d ∧
        Merged (hookCommand exe agent) events (table d) (table m)) ∧
    ∀ r, removeHooks d = .ok r →
      removeHooks r = .ok r ∧ others r = others d ∧ Cleaned (table d) (table r) ∧
        FreeTable (table r) := by
  have hm : Marked (hookCommand exe agent) := marked_hookCommand hexe agent
  constructor
  · intro m h
    obtain ⟨root, hooks, rfl, -, he, rfl⟩ := mergeHooks_ok h
    have hagain : mergeEvents (hookCommand exe agent) hooks events = .ok hooks :=
      mergeEvents_again hm fun e hl => mergeEvents_listed he hn hl
    refine ⟨?_, others_set root _, ?_⟩
    · rw [mergeHooks, lookup_set, if_pos rfl, Option.getD_some]
      dsimp only
      rw [hagain]
      dsimp only
      rw [set_set]
    · rw [table_set]
      exact merged_of_mergeEvents he hn
  · intro r h
    exact ⟨removeHooks_again h, removeHooks_table h⟩

/-- A group that has a hook of ours beside one of the user's. -/
theorem merge_and_remove_keep_shared :
    let exe := "C:\\Users\\x\\.mai\\bin\\mai-probe.exe"
    let command := hookCommand exe "claude"
    let user : Json := .obj [("type", .str "command"), ("command", .str "notify")]
    let d : Json := .obj [("model", .str "opus"), ("hooks", .obj
      [("Stop", .arr [.obj [("hooks", .arr [ourHook command, user]), ("note", .num "1")]])])]
    let m : Json := .obj [("model", .str "opus"), ("hooks", .obj
      [("Stop", .arr [.obj [("hooks", .arr [user]), ("note", .num "1")], entry command false])])]
    mergeHooks d [("Stop", false)] command = .ok m ∧
      mergeHooks m [("Stop", false)] command = .ok m ∧ others m = others d := by
  intro exe command user d m
  have hm : mergeHooks d [("Stop", false)] command = .ok m := by decide +kernel
  have hexe : checkProbeExe (·.startsWith "C:") exe = .ok () := by decide +kernel
  have h := (merge_and_remove_keep hexe (by decide) : _ ∧ ∀ r, removeHooks d = .ok r → _).1 m hm
  exact ⟨hm, h.1, h.2.1⟩

example : (claudeEvents.map Prod.fst).Nodup ∧ (codexEvents.map Prod.fst).Nodup := by decide

/-- Our hooks in the list of an event. -/
def oursAt (doc : Json) (event : String) : List Json :=
  (((lookup (table doc) event).bind asArr).getD []).flatMap ours

/-- After merging there is one hook of ours for each event, and no other, exactly if there was
none at an event that is not merged. -/
theorem merged_exactly_iff (hm : Marked command) (hn : (events.map Prod.fst).Nodup)
    (h : mergeHooks d events command = .ok m) :
    (∀ event, oursAt m event = if event ∈ events.map Prod.fst then [ourHook command] else []) ↔
      ∀ event ∉ events.map Prod.fst, oursAt d event = [] := by
  obtain ⟨root, hooks, rfl, -, he, rfl⟩ := mergeHooks_ok h
  have hunlisted (event : String) (hu : event ∉ events.map Prod.fst) :
      oursAt (.obj (set root "hooks" (.obj hooks))) event = oursAt (.obj root) event := by
    rw [oursAt, oursAt, table_set, mergeEvents_unlisted he hu]
  constructor
  · intro hall event hu
    rw [← hunlisted event hu, hall event, if_neg hu]
  · intro hall event
    split_ifs with hl
    · obtain ⟨⟨_, withMatcher⟩, hmem, rfl⟩ := List.mem_map.mp hl
      obtain ⟨list, hf, hlook⟩ := mergeEvents_listed he hn hmem
      rw [oursAt, table_set, hlook, Option.bind_some, asArr_arr, Option.getD_some,
        List.flatMap_append, List.flatMap_eq_nil_iff.mpr hf, List.nil_append,
        List.flatMap_singleton, ours_entry hm]
    · rw [hunlisted event hl, hall event hl]

/-- The hooks of an earlier version are replaced by one. -/
theorem merged_exactly_replaced :
    let command := hookCommand "/home/u/.mai/bin/mai-probe" "codex"
    let old := entry "/home/u/.mai/bin/mai-probe codex" true
    let d : Json := .obj [("hooks", .obj [("Stop", .arr [old, old])])]
    let m : Json := .obj [("hooks", .obj [("Stop", .arr [entry command false])])]
    mergeHooks d [("Stop", false)] command = .ok m ∧ ∀ event, oursAt m event =
      if event ∈ [("Stop", false)].map Prod.fst then [ourHook command] else [] := by
  intro command old d m
  have hmerge : mergeHooks d [("Stop", false)] command = .ok m := by decide +kernel
  constructor
  · exact hmerge
  · refine (merged_exactly_iff (by decide +kernel) (by decide) hmerge).mpr fun event hu => ?_
    rw [List.map_singleton, List.mem_singleton] at hu
    rw [oursAt, show table d = [("Stop", .arr [old, old])] from rfl, lookup_cons,
      if_neg (Ne.symm hu)]
    rfl

/-- The hook of an event that an earlier version asked for stays beside ours. -/
theorem not_merged_exactly : ¬∀ (d m : Json) (events : List (String × Bool)) (command : String),
    Marked command → (events.map Prod.fst).Nodup → mergeHooks d events command = .ok m →
      ∀ event, oursAt m event =
        if event ∈ events.map Prod.fst then [ourHook command] else [] := by
  intro h
  let old := "/home/u/.mai/bin/mai-probe claude"
  let command := hookCommand "/home/u/.mai/bin/mai-probe" "claude"
  have hstop := h (.obj [("hooks", .obj [("SubagentStop", .arr [entry old false])])])
    (.obj [("hooks", .obj [("SubagentStop", .arr [entry old false]),
      ("Stop", .arr [entry command false])])])
    [("Stop", false)] command (by decide +kernel) (by decide) (by decide +kernel) "SubagentStop"
  have hleft : oursAt (.obj [("hooks", .obj [("SubagentStop", .arr [entry old false]),
      ("Stop", .arr [entry command false])])]) "SubagentStop" = [ourHook old] := by
    decide +kernel
  rw [hleft] at hstop
  cases hstop

end Documents

end MultiAi.Hooks
