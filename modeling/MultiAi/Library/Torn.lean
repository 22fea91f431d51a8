import MultiAi.Library.Utf8
import MultiAi.Library.Window

/-! # Characters torn by chunks

Bytes that come in chunks are decoded chunk by chunk. A character that a chunk begins inside of is
torn: each part of it is replaced on its own.
-/

namespace MultiAi.Utf8

open Machine Pieces Window

/-- One byte, with whether a chunk begins with it. Each character comes with whether a chunk begins
inside of its bytes. -/
def stepMarked : Option (Pending × Bool) → Bool × UInt8 →
    Option (Pending × Bool) × List (Char × Bool)
  | none, i => ((lead i.2.toNat).1.map (·, false), (lead i.2.toNat).2.map (·, false))
  | some (p, torn), i =>
    if h : p.low ≤ i.2.toNat ∧ i.2.toNat ≤ p.high then
      ((p.next i.2.toNat h.1).1.map (·, torn || i.1), (p.next i.2.toNat h.1).2.map (·, torn || i.1))
    else ((lead i.2.toNat).1.map (·, false),
      (replacement, torn) :: (lead i.2.toNat).2.map (·, false))

def flushMarked : Option (Pending × Bool) → List (Char × Bool)
  | none => []
  | some (_, torn) => [(replacement, torn)]

/-- The bytes of a chunk, the first of them marked. -/
def mark : List UInt8 → List (Bool × UInt8)
  | [] => []
  | b :: bs => (true, b) :: bs.map (false, ·)

/-- The characters of some bytes, with whether a chunk begins inside of them. -/
def marked (chunks : List (List UInt8)) : List (Char × Bool) :=
  outputs stepMarked none (chunks.flatMap mark) ++
    flushMarked (run stepMarked none (chunks.flatMap mark))

section Forget

theorem map_fst_stepMarked (s : Option (Pending × Bool)) (i : Bool × UInt8) :
    ((stepMarked s i).1.map Prod.fst, (stepMarked s i).2.map Prod.fst) =
      step (s.map Prod.fst) i.2 := by
  cases s with
  | none => simp [stepMarked, step, Function.comp_def]
  | some s =>
    obtain ⟨p, torn⟩ := s
    rw [stepMarked, Option.map_some, step]
    split <;> simp [Function.comp_def]

theorem map_fst_run (s : Option (Pending × Bool)) (is : List (Bool × UInt8)) :
    (run stepMarked s is).map Prod.fst = run step (s.map Prod.fst) (is.map Prod.snd) ∧
      (outputs stepMarked s is).map Prod.fst =
        outputs step (s.map Prod.fst) (is.map Prod.snd) := by
  induction is generalizing s with
  | nil => exact ⟨rfl, rfl⟩
  | cons i is ih =>
    have hstep := map_fst_stepMarked s i
    obtain ⟨hrun, hout⟩ := ih (stepMarked s i).1
    rw [List.map_cons, run_cons, run_cons, outputs_cons, outputs_cons, List.map_append, hrun,
      hout, ← hstep]
    exact ⟨rfl, rfl⟩

theorem map_snd_mark (chunk : List UInt8) : (mark chunk).map Prod.snd = chunk := by
  cases chunk <;> simp [mark, Function.comp_def]

theorem map_fst_flushMarked (s : Option (Pending × Bool)) :
    (flushMarked s).map Prod.fst = flush (s.map Prod.fst) := by
  cases s <;> rfl

/-- The characters are those of the whole. -/
theorem map_fst_marked (chunks : List (List UInt8)) :
    (marked chunks).map Prod.fst = lossy chunks.flatten := by
  have hbytes : (chunks.flatMap mark).map Prod.snd = chunks.flatten := by
    induction chunks with
    | nil => rfl
    | cons chunk chunks ih =>
      rw [List.flatMap_cons, List.map_append, map_snd_mark, ih, List.flatten_cons]
  obtain ⟨hrun, hout⟩ := map_fst_run none (chunks.flatMap mark)
  rw [marked, List.map_append, map_fst_flushMarked, hrun, hout, hbytes]
  rfl

end Forget

section Whole

/-- Without a chunk that begins, nothing is torn. -/
theorem run_unmarked (q : Option Pending) (bs : List UInt8) :
    run stepMarked (q.map (·, false)) (bs.map (false, ·)) = (run step q bs).map (·, false) ∧
      outputs stepMarked (q.map (·, false)) (bs.map (false, ·)) =
        (outputs step q bs).map (·, false) := by
  induction bs generalizing q with
  | nil => exact ⟨rfl, rfl⟩
  | cons b bs ih =>
    have hstep : stepMarked (q.map (·, false)) (false, b) =
        ((step q b).1.map (·, false), (step q b).2.map (·, false)) := by
      cases q with
      | none => rfl
      | some p =>
        rw [Option.map_some, stepMarked, step]
        split <;> rfl
    obtain ⟨hrun, hout⟩ := ih (step q b).1
    rw [List.map_cons, run_cons, run_cons, outputs_cons, outputs_cons, hstep, hrun, hout,
      List.map_append]
    exact ⟨rfl, rfl⟩

/-- From rest, a chunk is read as it is on its own. -/
theorem run_mark (chunk : List UInt8) :
    run stepMarked none (mark chunk) = (run step none chunk).map (·, false) ∧
      outputs stepMarked none (mark chunk) = (outputs step none chunk).map (·, false) := by
  cases chunk with
  | nil => exact ⟨rfl, rfl⟩
  | cons b bs =>
    obtain ⟨hrun, hout⟩ := run_unmarked (step none b).1 bs
    have hstep : stepMarked none (true, b) =
        ((step none b).1.map (·, false), (step none b).2.map (·, false)) := rfl
    rw [mark, run_cons, run_cons, outputs_cons, outputs_cons, hstep, hrun, hout, List.map_append]
    exact ⟨rfl, rfl⟩

/-- Chunks that end where a character ends tear none. -/
theorem marked_of_whole {chunks : List (List UInt8)}
    (h : ∀ chunk ∈ chunks, run step none chunk = none) :
    marked chunks = (lossy chunks.flatten).map (·, false) := by
  have hall : run stepMarked none (chunks.flatMap mark) = none ∧
      ∀ x ∈ outputs stepMarked none (chunks.flatMap mark), x.2 = false := by
    induction chunks with
    | nil => exact ⟨rfl, by simp⟩
    | cons chunk chunks ih =>
      obtain ⟨hrun, hout⟩ := run_mark chunk
      rw [h chunk List.mem_cons_self, Option.map_none] at hrun
      obtain ⟨hrest, hfalse⟩ := ih fun c hc => h c (List.mem_cons_of_mem _ hc)
      rw [List.flatMap_cons, run_append, outputs_append, hrun, hout]
      refine ⟨hrest, fun x hx => ?_⟩
      rcases List.mem_append.mp hx with hx | hx
      · obtain ⟨c, -, rfl⟩ := List.mem_map.mp hx
        rfl
      · exact hfalse x hx
  have hmarked : marked chunks = outputs stepMarked none (chunks.flatMap mark) := by
    rw [marked, hall.1, flushMarked, List.append_nil]
  rw [← map_fst_marked, List.map_map]
  nth_rewrite 1 [← List.map_id (marked chunks)]
  refine List.map_congr_left fun x hx => ?_
  rw [hmarked] at hx
  exact Prod.ext rfl (hall.2 x hx)

end Whole

section Shown

/-- A byte after the first one of a sequence is no character on its own. -/
theorem lead_of_continues {b : ℕ} (h : 0x80 ≤ b ∧ b ≤ 0xBF) : lead b = (none, [replacement]) := by
  unfold lead
  split_ifs <;> first | omega | rfl

theorem lead_high {b : ℕ} {p : Pending} (h : p ∈ (lead b).1) : p.high ≤ 0xBF := by
  unfold lead at h
  split_ifs at h <;> simp only [Option.mem_def, Option.some_inj, reduceCtorEq] at h <;>
    subst h <;> simp

theorem next_cases (p : Pending) (b : ℕ) (h : p.low ≤ b) :
    (∃ c, p.next b h = (none, [c])) ∨ ∃ q, q.high ≤ 0xBF ∧ p.next b h = (some q, []) := by
  rw [Pending.next]
  split
  · exact Or.inl ⟨_, rfl⟩
  · exact Or.inr ⟨_, le_rfl, rfl⟩

variable {s : Option (Pending × Bool)} {q : Option Pending} {out : List (Char × Bool)}
  {shown : List Char}

theorem cut_kept (h : Cut (Shows replacement) out shown) (cs : List Char) :
    Cut (Shows replacement) (out ++ cs.map (·, false)) (shown ++ cs) := by
  refine cut_append.mpr ⟨shown, cs, h, ?_, rfl⟩
  rw [cut_shows_whole (by simp)]
  simp [Function.comp_def]

/-- Between two chunks, what was begun is shown as it would be at the end. -/
structure Between (s : Option (Pending × Bool)) (out : List (Char × Bool)) (shown : List Char) :
    Prop where
  cut : Cut (Shows replacement) (out ++ flushMarked s) shown
  high : ∀ p torn, s = some (p, torn) → p.high ≤ 0xBF

/-- Inside of a chunk, its decoder is where that of the whole is, or has lost the beginning of
the sequence. -/
inductive Inside : Option (Pending × Bool) → Option Pending → List (Char × Bool) → List Char → Prop
  | aligned {q : Option Pending} {out : List (Char × Bool)} {shown : List Char} :
      Cut (Shows replacement) out shown → (∀ p ∈ q, p.high ≤ 0xBF) →
        Inside (q.map (·, false)) q out shown
  | behind {p : Pending} {out : List (Char × Bool)} {shown : List Char} :
      Cut (Shows replacement) (out ++ [(replacement, true)]) shown → p.high ≤ 0xBF →
        Inside (some (p, true)) none out shown

/-- A decoder that has lost the beginning replaces every byte of the sequence. -/
theorem Inside.advance {p : Pending} {torn : Bool} {i : Bool × UInt8}
    (h : Cut (Shows replacement) (out ++ [(replacement, torn)]) shown) (hp : p.high ≤ 0xBF)
    (hi : (torn || i.1) = true) :
    Inside (stepMarked (some (p, torn)) i).1 (step none i.2).1
      (out ++ (stepMarked (some (p, torn)) i).2) (shown ++ (step none i.2).2) := by
  rw [stepMarked, step]
  split
  · rename_i hb
    have hlow := p.continues
    rw [lead_of_continues (by omega), hi]
    -- one more mark for the sequence
    obtain ⟨front, piece, hfront, hpiece, rfl⟩ := cut_append.mp h
    obtain ⟨piece, _, hshows, hnil, rfl⟩ := cut_cons.mp hpiece
    cases cut_nil.mp hnil
    have hmore : ∀ c, Shows replacement (c, true) (piece ++ [replacement]) := by
      intro c
      cases torn with
      | false =>
        have hone : piece = [replacement] := hshows
        exact ⟨2, le_rfl, by rw [hone]; rfl⟩
      | true =>
        obtain ⟨n, hn, rfl⟩ := (hshows : ∃ n, 2 ≤ n ∧ piece = List.replicate n replacement)
        exact ⟨n + 1, by omega, List.replicate_succ'.symm⟩
    rw [List.append_nil, List.append_assoc]
    rcases next_cases p i.2.toNat hb.1 with ⟨c, hc⟩ | ⟨p', hp', hc⟩
    · rw [hc]
      exact .aligned (q := none) (cut_concat hfront (hmore c)) (by simp)
    · rw [hc, List.map_nil, List.append_nil]
      exact .behind (cut_concat hfront (hmore replacement)) hp'
  · rw [← List.singleton_append, ← List.append_assoc]
    exact .aligned (cut_kept h _) fun p hp => lead_high hp

theorem Inside.next (h : Inside s q out shown) (b : UInt8) :
    Inside (stepMarked s (false, b)).1 (step q b).1 (out ++ (stepMarked s (false, b)).2)
      (shown ++ (step q b).2) := by
  cases h with
  | behind hcut hp => exact .advance hcut hp rfl
  | @aligned q _ _ hcut hq =>
    cases q with
    | none => exact .aligned (cut_kept hcut _) fun p hp => lead_high hp
    | some p =>
      rw [Option.map_some, stepMarked, step]
      split
      · rename_i hb
        rcases next_cases p b.toNat hb.1 with ⟨c, hc⟩ | ⟨p', hp', hc⟩
        · rw [hc]
          exact .aligned (q := none) (cut_kept hcut [c]) (by simp)
        · rw [hc]
          exact .aligned (q := some p') (cut_kept hcut []) (by simpa using hp')
      · exact .aligned (cut_kept hcut (replacement :: (lead b.toNat).2)) fun p hp => lead_high hp

theorem Inside.run (h : Inside s q out shown) (bs : List UInt8) :
    Inside (run stepMarked s (bs.map (false, ·))) (Machine.run step q bs)
      (out ++ outputs stepMarked s (bs.map (false, ·))) (shown ++ outputs step q bs) := by
  induction bs generalizing s q out shown with
  | nil => simpa using h
  | cons b bs ih => simpa using ih (h.next b)

/-- What a chunk leaves undone is replaced at its end. -/
theorem Inside.finish (h : Inside s q out shown) : Between s out (shown ++ flush q) := by
  cases h with
  | behind hcut hp =>
    refine ⟨by simpa [flush, flushMarked] using hcut, ?_⟩
    rintro p torn ⟨⟩
    exact hp
  | @aligned q _ _ hcut hq =>
    refine ⟨?_, ?_⟩
    · cases q with
      | none => exact cut_kept hcut []
      | some p => exact cut_kept hcut [replacement]
    · intro p torn hs
      cases q with
      | none => cases hs
      | some p =>
        cases hs
        exact hq p rfl

theorem Between.chunk (h : Between s out shown) (chunk : List UInt8) :
    Between (run stepMarked s (mark chunk)) (out ++ outputs stepMarked s (mark chunk))
      (shown ++ lossy chunk) := by
  cases chunk with
  | nil => simpa [mark, lossy, flush] using h
  | cons b bs =>
    have hfirst : Inside (stepMarked s (true, b)).1 (step none b).1
        (out ++ (stepMarked s (true, b)).2) (shown ++ (step none b).2) := by
      cases s with
      | none =>
        have hcut : Cut (Shows replacement) out shown := by simpa [flushMarked] using h.cut
        exact .aligned (cut_kept hcut _) fun p hp => lead_high hp
      | some s =>
        obtain ⟨p, torn⟩ := s
        exact .advance h.cut (h.high p torn rfl) (Bool.or_true torn)
    simpa [mark, lossy] using (hfirst.run bs).finish

theorem Between.chunks (h : Between s out shown) (chunks : List (List UInt8)) :
    Between (Machine.run stepMarked s (chunks.flatMap mark))
      (out ++ outputs stepMarked s (chunks.flatMap mark)) (shown ++ chunks.flatMap lossy) := by
  induction chunks generalizing s out shown with
  | nil => simpa using h
  | cons chunk chunks ih =>
    simpa [run_append, outputs_append] using ih (h.chunk chunk)

/-- Chunks on their own show every character of the whole as it is, or as two or more replacement
characters if it is torn. -/
theorem cut_marked (chunks : List (List UInt8)) :
    Cut (Shows replacement) (marked chunks) (chunks.flatMap lossy) := by
  have hstart : Between none [] [] := ⟨cut_nil.mpr rfl, by simp⟩
  exact (hstart.chunks chunks).cut

end Shown

end MultiAi.Utf8
