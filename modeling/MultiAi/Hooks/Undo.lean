import MultiAi.Hooks.Atomic

/-! # Removing what merging adds

Removing drops the events that are empty, whoever emptied them, and leaves the table that merging
made. A document comes back exactly if it had a table and no empty event.
-/

namespace MultiAi.Hooks

open Json Asking

variable {command : String} {events : List (String × Bool)} {hooks hooks' : List (String × Json)}
  {d m r : Json} {parse : String → Option Json} {pretty : Json → String} {pid hops nowMs : ℕ}
  {path : Path}

/-- Each event has hooks, or is no list. -/
def NoEmpty (doc : Json) : Prop := ∀ f ∈ table doc, f.2 ≠ .arr []

theorem removeEvents_set {event : String} {withMatcher : Bool} {list : List Json}
    (hm : Marked command) (hl : (lookup hooks event).getD (.arr []) = .arr list) :
    removeEvents (set hooks event (.arr (stripOurs list ++ [entry command withMatcher]))) =
      removeEvents hooks := by
  have hstrip : stripValue (.arr (stripOurs list ++ [entry command withMatcher])) =
      stripValue (.arr list) := congrArg Json.arr (stripOurs_merged hm stripOurs_free)
  induction hooks with
  | nil =>
    cases hl
    rw [Json.set, removeEvents_cons, hstrip]
    rfl
  | cons f hooks ih =>
    obtain ⟨k, v⟩ := f
    rw [lookup_cons] at hl
    rw [Json.set]
    split_ifs at hl ⊢ with hk
    · cases hl
      rw [removeEvents_cons, removeEvents_cons, hstrip]
    · rw [removeEvents_cons, removeEvents_cons, ih hl]

theorem removeEvents_mergeEvents (hm : Marked command)
    (h : mergeEvents command hooks events = .ok hooks') :
    removeEvents hooks' = removeEvents hooks := by
  induction events generalizing hooks with
  | nil =>
    cases h
    rfl
  | cons e events ih =>
    obtain ⟨list, hl, h⟩ := mergeEvents_cons h
    rw [ih h, removeEvents_set hm hl]

/-- Removing gives back the table that was there, if none of its events is empty. -/
theorem removeHooks_merged (hfree : FreeTable (table d)) (hm : Marked command)
    (h : mergeHooks d events command = .ok m) :
    ∃ r, removeHooks m = .ok r ∧ (r = d ↔ d.get "hooks" ≠ none ∧ NoEmpty d) := by
  obtain ⟨root, hooks, rfl, hl, he, rfl⟩ := mergeHooks_ok h
  refine ⟨.obj (set root "hooks" (.obj (removeEvents (table (.obj root))))), ?_, ?_⟩
  · rw [removeHooks, lookup_set, if_pos rfl]
    dsimp only
    rw [set_set, removeEvents_mergeEvents hm he]
  · rw [NoEmpty, ← removeEvents_eq_self hfree, get_obj, Json.obj.injEq]
    constructor
    · intro hset
      have hlook : lookup root "hooks" = some (.obj (removeEvents (table (.obj root)))) := calc
        lookup root "hooks" = lookup (set root "hooks" _) "hooks" := by rw [hset]
        _ = some (.obj (removeEvents (table (.obj root)))) := by rw [lookup_set, if_pos rfl]
      rw [hlook, Option.getD_some] at hl
      rw [hlook]
      exact ⟨(by simp), Json.obj.inj hl⟩
    · rintro ⟨hsome, hsame⟩
      rw [hsame]
      apply set_lookup
      cases hroot : lookup root "hooks" with
      | none => exact absurd hroot hsome
      | some v => rw [← hl, hroot, Option.getD_some]

theorem removeHooks_free (hfree : FreeTable (table d)) (h : removeHooks d = .ok r) :
    r = d ↔ NoEmpty d := by
  rw [NoEmpty, ← removeEvents_eq_self hfree]
  obtain ⟨hd, rfl⟩ | ⟨root, rfl, hl, rfl⟩ := removeHooks_ok h
  · refine iff_of_true rfl ?_
    rw [table, hd]
    rfl
  · constructor
    · intro hset
      rw [← table_set root (removeEvents _), hset]
    · intro hsame
      rw [hsame, set_lookup hl]

theorem writeChanged_safe {after : Json} {changed : Outcome} (hc : changed ≠ .unchanged)
    (hne : after ≠ d) (D : Disk) :
    (writeChanged pretty pid path nowMs changed d (.ok after)).Safe (serve hops)
      (fun _ _ => True) (fun _ _ r => r ≠ .ok .unchanged) [] D := by
  rw [writeChanged, if_neg hne]
  refine Safe.bind ((Safe.trivial _ _ _).mono fun h s r _ => ?_)
  cases r with
  | error error => exact ⟨True.intro, (by simp)⟩
  | ok _ => exact ⟨True.intro, fun hr => hc (Except.ok.inj hr)⟩

theorem readDoc_run {D : Disk} (hdoc : docOf parse (D.content hops path) = some d)
    (fates : List Fate) : ∃ events,
      (readDoc parse path).run (serve hops) D (.works :: fates) = ⟨events, D, some (.ok d)⟩ ∧
        events.length = 1 := by
  cases hc : D.content hops path with
  | ok bytes =>
    rw [hc, docOf] at hdoc
    obtain ⟨text, htext, hdoc⟩ := Option.bind_eq_some_iff.mp hdoc
    refine ⟨[⟨.read path, .ok text⟩], ?_, rfl⟩
    simp [readDoc, serve, hc, htext, hdoc]
  | error error =>
    cases error with
    | notFound =>
      rw [hc] at hdoc
      cases hdoc
      refine ⟨[⟨.read path, .error .notFound⟩], ?_, rfl⟩
      simp [readDoc, serve, hc]
    | other text =>
      rw [hc] at hdoc
      cases hdoc

/-- A config without hooks of ours is left alone exactly if none of its events is empty. -/
theorem uninstallFile_iff {D : Disk} (hfree : FreeTable (table d)) (hr : removeHooks d = .ok r)
    (hdoc : docOf parse (D.content hops path) = some d) (fates : List Fate) :
    let last := (uninstallFile parse pretty pid path nowMs).run (serve hops) D
      (.works :: .works :: fates)
    last.result = some (.ok .unchanged) ∧ last.state = D ↔ NoEmpty d := by
  intro last
  rw [← removeHooks_free hfree hr]
  obtain ⟨events, hread, hlen⟩ := readDoc_run hdoc fates
  cases hm : D.mode hops path with
  | ok mode =>
    have hresult : ((readDoc parse path).run (serve hops) D (.works :: fates)).result =
        some (.ok d) := by rw [hread]
    have hlast : last.result = ((writeChanged pretty pid path nowMs .removed d (.ok r)).run
        (serve hops) D fates).result ∧ last.state = ((writeChanged pretty pid path nowMs .removed d
          (.ok r)).run (serve hops) D fates).state := by
      simp only [last, uninstallFile, apply, run_ask_cons, serve, hm, run_bind_some _ hresult,
        hread, hlen, hr, List.drop_succ_cons, List.drop_zero, and_self]
    rw [hlast.1, hlast.2]
    constructor
    · rintro ⟨hunchanged, -⟩
      by_contra hne
      exact ((writeChanged_safe (by decide) hne D).run fates).2 _ hunchanged rfl
    · rintro rfl
      rw [writeChanged, if_pos rfl, run_done]
      exact ⟨rfl, rfl⟩
  | error error =>
    refine iff_of_true ?_ ?_
    · simp [last, uninstallFile, serve, hm]
    · cases hcontent : D.content hops path with
      | ok bytes => exact absurd hcontent (Disk.content_of_mode hm bytes)
      | error e =>
        rw [hcontent] at hdoc
        cases e <;> cases hdoc
        cases hr
        rfl

/-- Removing undoes merging exactly if there was a table and no event was empty, and a config
without hooks of ours is left alone exactly if no event is empty. -/
theorem remove_undoes_iff (hfree : FreeTable (table d)) :
    (∀ events command m, Marked command → mergeHooks d events command = .ok m →
      ∃ r, removeHooks m = .ok r ∧ (r = d ↔ d.get "hooks" ≠ none ∧ NoEmpty d)) ∧
    ∀ r, removeHooks d = .ok r → (r = d ↔ NoEmpty d) ∧
      ∀ (parse : String → Option Json) (pretty : Json → String) (pid hops : ℕ) (path : Path)
        (nowMs : ℕ) (D : Disk) (fates : List Fate), docOf parse (D.content hops path) = some d →
        let last := (uninstallFile parse pretty pid path nowMs).run (serve hops) D
          (.works :: .works :: fates)
        last.result = some (.ok .unchanged) ∧ last.state = D ↔ NoEmpty d := by
  constructor
  · intro events command m hm h
    exact removeHooks_merged hfree hm h
  · intro r hr
    exact ⟨removeHooks_free hfree hr, fun _ _ _ _ _ _ _ fates hdoc =>
      uninstallFile_iff hfree hr hdoc fates⟩

/-- The user's hook at an event that we install too. -/
theorem remove_undoes_user :
    let command := hookCommand "/home/u/.mai/bin/mai-probe" "claude"
    let user : Json := .obj [("hooks", .arr [.obj [("command", .str "notify")]])]
    let d : Json := .obj [("hooks", .obj [("Stop", .arr [user])])]
    ∃ m, mergeHooks d [("SessionStart", false), ("Stop", false)] command = .ok m ∧
      removeHooks m = .ok d := by
  intro command user d
  let m : Json := .obj [("hooks", .obj [("Stop", .arr [user, entry command false]),
    ("SessionStart", .arr [entry command false])])]
  have hm : mergeHooks d [("SessionStart", false), ("Stop", false)] command = .ok m := by
    decide +kernel
  have htable : table d = [("Stop", .arr [user])] := rfl
  have hfree : FreeTable (table d) := by
    simp only [FreeTable, htable, List.forall_mem_singleton, Json.arr.injEq, forall_eq', Free]
    decide +kernel
  obtain ⟨r, hr, hiff⟩ := (remove_undoes_iff hfree).1 _ command m (by decide +kernel) hm
  rw [hiff.mpr ⟨nofun, by simp [NoEmpty, htable]⟩] at hr
  exact ⟨m, hm, hr⟩

/-- An event of the user's that has no hooks is dropped. -/
theorem not_remove_undoes : ¬∀ (d m : Json) (events : List (String × Bool)) (command : String),
    FreeTable (table d) → Marked command → mergeHooks d events command = .ok m →
      removeHooks m = .ok d := by
  intro h
  let command := hookCommand "/home/u/.mai/bin/mai-probe" "claude"
  let d : Json := .obj [("hooks", .obj [("PreCompact", .arr [])])]
  let m : Json := .obj [("hooks", .obj [("PreCompact", .arr []),
    ("Stop", .arr [entry command false])])]
  have hfree : FreeTable (table d) := by
    simp [FreeTable, Free, show table d = [("PreCompact", .arr [])] from rfl]
  have hgone : removeHooks m = .ok (.obj [("hooks", .obj [])]) := by decide +kernel
  have hback := h d m [("Stop", false)] command hfree (by decide +kernel) (by decide +kernel)
  rw [hgone] at hback
  exact absurd hback (by decide)

end MultiAi.Hooks
