import MultiAi.Library.Json
import Mathlib.Data.List.Forall2
import Mathlib.Data.List.Infix

/-! # Hook entries in agent configs

The configs of the agents list hooks by event, in groups. Our hooks are known by their command:
merging replaces those of the events we install, and removing drops them all.
-/

namespace MultiAi.Hooks

open Json

/-- In every hook command that we install. -/
def marker : String := ".mai/bin/mai-probe"

/-- Events, and whether they need a `"*"` matcher. -/
def claudeEvents : List (String × Bool) := [
  ("SessionStart", false),
  ("UserPromptSubmit", false),
  ("PreToolUse", true),
  ("PostToolUse", true),
  ("Notification", false),
  ("Stop", false),
  ("SessionEnd", false)]

def codexEvents : List (String × Bool) := [
  ("SessionStart", false),
  ("UserPromptSubmit", false),
  ("PreToolUse", true),
  ("PostToolUse", true),
  ("PermissionRequest", true),
  ("Stop", false),
  ("Interrupt", false),
  ("SessionEnd", false)]

def Marked (command : String) : Prop := marker.toList <:+: command.toList

instance (command : String) : Decidable (Marked command) := inferInstanceAs (Decidable (_ <:+: _))

/-- The hook command of an agent; backslashes of the path become slashes. -/
def hookCommand (probeExe agent : String) : String :=
  "\"" ++ String.ofList (probeExe.toList.map fun c => if c = '\\' then '/' else c) ++ "\" hook " ++
    agent

/-- Hooks are recognised by their command only, so the probe has to be under `.mai/bin`. -/
def checkProbeExe (isAbsolute : String → Bool) (exe : String) : Except String Unit :=
  if !isAbsolute exe then .error "probe path is not absolute"
  else if ¬Marked (hookCommand exe "x") then
    .error "probe is not under .mai/bin; hooks would not be recognised"
  else .ok ()

def isOurs (hook : Json) : Bool :=
  ((hook.get "command").bind asStr).any fun c => decide (Marked c)

/-- The hooks of a group. -/
def hooksOf (group : Json) : Option (List Json) := (group.get "hooks").bind asArr

/-- A group without our hooks; it goes where that leaves no hooks. -/
def stripGroup (group : Json) : Option Json :=
  match group with
  | .obj fields =>
    match (lookup fields "hooks").bind asArr with
    | none => some group
    | some hs =>
      let kept := hs.filter fun h => !isOurs h
      if kept.length = hs.length || !kept.isEmpty then
        some (.obj (set fields "hooks" (.arr kept)))
      else none
  | _ => some group

/-- Remove our hooks from every group of one event's list. -/
def stripOurs (list : List Json) : List Json := list.filterMap stripGroup

/-- The hook that we install. -/
def ourHook (command : String) : Json :=
  .obj [("type", .str "command"), ("command", .str command)]

/-- The group that we install. -/
def entry (command : String) (withMatcher : Bool) : Json :=
  .obj (("hooks", .arr [ourHook command]) :: if withMatcher then [("matcher", .str "*")] else [])

def mergeEvents (command : String) (hooks : List (String × Json)) :
    List (String × Bool) → Except String (List (String × Json))
  | [] => .ok hooks
  | (event, withMatcher) :: events =>
    match (lookup hooks event).getD (.arr []) with
    | .arr list =>
      mergeEvents command (set hooks event (.arr (stripOurs list ++ [entry command withMatcher])))
        events
    | _ => .error "a hook event is not a JSON array"

/-- Replace our entries with one for each event. -/
def mergeHooks (doc : Json) (events : List (String × Bool)) (command : String) :
    Except String Json :=
  match doc with
  | .obj root =>
    match (lookup root "hooks").getD (.obj []) with
    | .obj hooks =>
      match mergeEvents command hooks events with
      | .ok hooks => .ok (.obj (set root "hooks" (.obj hooks)))
      | .error e => .error e
    | _ => .error "\"hooks\" is not a JSON object"
  | _ => .error "top level is not a JSON object"

def stripValue : Json → Json
  | .arr list => .arr (stripOurs list)
  | v => v

def removeEvents (hooks : List (String × Json)) : List (String × Json) :=
  (hooks.map fun f => (f.1, stripValue f.2)).filter fun f => f.2.asArr.all fun list => list ≠ []

/-- Remove our hooks, and the groups and events that become empty. -/
def removeHooks (doc : Json) : Except String Json :=
  match doc with
  | .obj root =>
    match lookup root "hooks" with
    | none => .ok doc
    | some (.obj hooks) => .ok (.obj (set root "hooks" (.obj (removeEvents hooks))))
    | some _ => .error "\"hooks\" is not a JSON object"
  | _ => .error "top level is not a JSON object"

/-- The table of hooks. -/
def table (doc : Json) : List (String × Json) := ((doc.get "hooks").bind asObj).getD []

/-- The fields but the hooks. -/
def others (v : Json) : List (String × Json) := (v.asObj.getD []).filter (·.1 ≠ "hooks")

/-- Our hooks in a group. -/
def ours (group : Json) : List Json := ((hooksOf group).getD []).filter isOurs

/-- The hooks in a group that are not ours. -/
def foreign (group : Json) : List Json := ((hooksOf group).getD []).filter fun h => !isOurs h

/-- A group goes where all that it has is hooks of ours. -/
def Stays (group : Json) : Prop := ours group = [] ∨ foreign group ≠ []

instance : DecidablePred Stays := fun _ => inferInstanceAs (Decidable (_ ∨ _))

/-- What is left of a group without our hooks. -/
structure Kept (group group' : Json) : Prop where
  verbatim : ours group = [] → group' = group
  others_eq : others group' = others group
  hooks_eq : hooksOf group' = (hooksOf group).map (List.filter fun h => !isOurs h)

/-- No hook of ours in the groups. -/
def Free (list : List Json) : Prop := ∀ group ∈ list, ours group = []

/-- The groups that stay, in their order. -/
def Preserves (list list' : List Json) : Prop := List.Forall₂ Kept (list.filter Stays) list'

section Groups

variable {group group' : Json} {list : List Json} {command : String} {withMatcher : Bool}

theorem Kept.free (h : Kept group group') : ours group' = [] := by
  rw [ours, h.hooks_eq]
  cases hooksOf group <;> simp

theorem Kept.refl (h : ours group = []) : Kept group group := by
  constructor
  · exact fun _ => rfl
  · rfl
  · rw [ours, List.filter_eq_nil_iff] at h
    cases hg : hooksOf group with
    | none => rfl
    | some hs =>
      rw [hg] at h
      rw [Option.map_some, List.filter_eq_self.mpr fun a ha => by simpa using h a ha]

theorem stripGroup_none (h : stripGroup group = none) : ¬Stays group := by
  cases group with
  | obj fields =>
    cases hl : (lookup fields "hooks").bind asArr with
    | none => simp [stripGroup, hl] at h
    | some hs =>
      have hof : hooksOf (.obj fields) = some hs := hl
      simp only [stripGroup, hl] at h
      split at h
      · cases h
      · rename_i hk
        rw [Bool.or_eq_true, not_or] at hk
        obtain ⟨hlen, hne⟩ := hk
        rintro (hfree | hforeign)
        · apply hlen
          rw [ours, hof, Option.getD_some, List.filter_eq_nil_iff] at hfree
          rw [decide_eq_true_eq, List.filter_eq_self.mpr fun a ha => by simpa using hfree a ha]
        · apply hforeign
          rw [foreign, hof]
          simpa using hne
  | _ => simp [stripGroup] at h

theorem stripGroup_some (h : stripGroup group = some group') : Stays group ∧ Kept group group' := by
  cases group with
  | obj fields =>
    cases hl : (lookup fields "hooks").bind asArr with
    | none =>
      have hfree : ours (.obj fields) = [] := by simp [ours, hooksOf, hl]
      simp only [stripGroup, hl, Option.some.injEq] at h
      subst h
      exact ⟨.inl hfree, .refl hfree⟩
    | some hs =>
      have hof : hooksOf (.obj fields) = some hs := hl
      simp only [stripGroup, hl] at h
      split at h
      · rename_i hk
        have hk' : (hs.filter fun h => !isOurs h) = hs ∨ (hs.filter fun h => !isOurs h) ≠ [] := by
          simpa [List.filter_sublist.length_eq] using hk
        cases h
        constructor
        · obtain heq | hne := hk'
          · left
            rw [ours, hof, Option.getD_some, List.filter_eq_nil_iff]
            exact fun a ha => by simpa using List.filter_eq_self.mp heq a ha
          · right
            rwa [foreign, hof]
        · constructor
          · intro hfree
            rw [ours, hof, Option.getD_some, List.filter_eq_nil_iff] at hfree
            rw [List.filter_eq_self.mpr fun a ha => by simpa using hfree a ha, set_lookup]
            obtain ⟨v, hv, hs'⟩ := Option.bind_eq_some_iff.mp hl
            cases v <;> cases hs'
            exact hv
          · exact filter_set
          · rw [hof]
            simp [hooksOf, lookup_set]
      · cases h
  | _ => cases h; exact ⟨.inl rfl, .refl rfl⟩

theorem stripGroup_of_free (h : ours group = []) : stripGroup group = some group := by
  cases hs : stripGroup group with
  | none => exact absurd (.inl h) (stripGroup_none hs)
  | some group' => rw [(stripGroup_some hs).2.verbatim h]

theorem stripOurs_of_free (h : Free list) : stripOurs list = list := by
  induction list with
  | nil => rfl
  | cons group list ih =>
    obtain ⟨hg, hl⟩ := List.forall_mem_cons.mp h
    rw [stripOurs, List.filterMap_cons_some (stripGroup_of_free hg)]
    exact congrArg _ (ih hl)

theorem stripOurs_free : Free (stripOurs list) := by
  intro group hg
  obtain ⟨_, _, hs⟩ := List.mem_filterMap.mp hg
  exact (stripGroup_some hs).2.free

theorem preserves_stripOurs : Preserves list (stripOurs list) := by
  rw [Preserves]
  induction list with
  | nil => exact .nil
  | cons group list ih =>
    cases hs : stripGroup group with
    | none =>
      rw [stripOurs, List.filterMap_cons_none hs, List.filter_cons_of_neg]
      · exact ih
      · simpa using stripGroup_none hs
    | some group' =>
      obtain ⟨hstays, hkept⟩ := stripGroup_some hs
      rw [stripOurs, List.filterMap_cons_some hs, List.filter_cons_of_pos (by simpa using hstays)]
      exact .cons hkept ih

theorem stripOurs_append (list list' : List Json) :
    stripOurs (list ++ list') = stripOurs list ++ stripOurs list' := List.filterMap_append

theorem isOurs_ourHook (h : Marked command) : isOurs (ourHook command) = true := by
  simpa [isOurs, ourHook, lookup_cons] using h

theorem hooksOf_entry : hooksOf (entry command withMatcher) = some [ourHook command] := by
  simp [hooksOf, entry, lookup_cons]

theorem ours_entry (h : Marked command) : ours (entry command withMatcher) = [ourHook command] := by
  rw [ours, hooksOf_entry, Option.getD_some, List.filter_cons_of_pos (isOurs_ourHook h),
    List.filter_nil]

theorem stripOurs_entry (h : Marked command) : stripOurs [entry command withMatcher] = [] := by
  have hgone : stripGroup (entry command withMatcher) = none := by
    cases hs : stripGroup (entry command withMatcher) with
    | none => rfl
    | some group' =>
      obtain hfree | hforeign := (stripGroup_some hs).1
      · rw [ours_entry h] at hfree
        cases hfree
      · rw [foreign, hooksOf_entry] at hforeign
        simp [isOurs_ourHook h] at hforeign
  rw [stripOurs, List.filterMap_cons_none hgone, List.filterMap_nil]

/-- Merging the list of an event again changes nothing. -/
theorem stripOurs_merged (h : Marked command) (hf : Free list) :
    stripOurs (list ++ [entry command withMatcher]) = list := by
  rw [stripOurs_append, stripOurs_of_free hf, stripOurs_entry h, List.append_nil]

end Groups

end MultiAi.Hooks
