import Mathlib.Algebra.Group.Nat.Defs
import MultiAi.Library.Lines
import MultiAi.Library.Machine

/-! # Lossy UTF-8

Bytes are read as UTF-8, and each longest prefix of a sequence that goes wrong becomes one
replacement character. A newline is a character of its own, whatever surrounds it.
-/

namespace MultiAi.Utf8

def replacement : Char := '\uFFFD'

def newline : UInt8 := 10

/-- A sequence that was begun: its value so far, the bounds of the next byte and how many
bytes follow that one. What it ends with is not ASCII. -/
structure Pending where
  value : ℕ
  low : ℕ
  high : ℕ
  more : ℕ
  continues : 0x80 ≤ low
  large : 0x80 ≤ (value * 64 + (low - 0x80)) * 64 ^ more

/-- The first byte of a sequence. -/
def lead (b : ℕ) : Option Pending × List Char :=
  if b < 0x80 then (none, [Char.ofNat b])
  else if h : 0xC2 ≤ b ∧ b ≤ 0xDF then
    (some ⟨b - 0xC0, 0x80, 0xBF, 0, by omega, by omega⟩, [])
  else if b = 0xE0 then (some ⟨0, 0xA0, 0xBF, 1, by decide, by decide⟩, [])
  else if b = 0xED then (some ⟨0xD, 0x80, 0x9F, 1, by decide, by decide⟩, [])
  else if h : 0xE1 ≤ b ∧ b ≤ 0xEF then
    (some ⟨b - 0xE0, 0x80, 0xBF, 1, by omega, by omega⟩, [])
  else if b = 0xF0 then (some ⟨0, 0x90, 0xBF, 2, by decide, by decide⟩, [])
  else if h : 0xF1 ≤ b ∧ b ≤ 0xF3 then
    (some ⟨b - 0xF0, 0x80, 0xBF, 2, by omega, by omega⟩, [])
  else if b = 0xF4 then (some ⟨4, 0x80, 0x8F, 2, by decide, by decide⟩, [])
  else (none, [replacement])

/-- The next byte of a sequence that was begun. -/
def Pending.next (p : Pending) (b : ℕ) (h : p.low ≤ b) : Option Pending × List Char :=
  match hm : p.more with
  | 0 => (none, [Char.ofNat (p.value * 64 + (b - 0x80))])
  | more + 1 => (some ⟨p.value * 64 + (b - 0x80), 0x80, 0xBF, more, Nat.le_refl _, by
      have hlarge := p.large
      rw [hm, Nat.pow_succ', ← Nat.mul_assoc] at hlarge
      refine Nat.le_trans hlarge (Nat.mul_le_mul_right _ ?_)
      omega⟩, [])

/-- One byte; one that does not continue a sequence begins the next. -/
def step : Option Pending → UInt8 → Option Pending × List Char
  | none, b => lead b.toNat
  | some p, b =>
    if h : p.low ≤ b.toNat ∧ b.toNat ≤ p.high then p.next b.toNat h.1
    else ((lead b.toNat).1, replacement :: (lead b.toNat).2)

/-- What is left of a sequence that the bytes do not end. -/
def flush : Option Pending → List Char
  | none => []
  | some _ => [replacement]

/-- The characters of some bytes. -/
def lossy (bytes : List UInt8) : List Char :=
  Machine.outputs step none bytes ++ flush (Machine.run step none bytes)

theorem step_newline (q : Option Pending) : step q newline = (none, flush q ++ ['\n']) := by
  cases q with
  | none => rfl
  | some p =>
    have hp : ¬ (p.low ≤ newline.toNat ∧ newline.toNat ≤ p.high) := by
      rintro ⟨h, -⟩
      exact absurd (Nat.le_trans p.continues h) (by decide)
    rw [step, dif_neg hp]
    rfl

theorem lossy_newline (line rest : List UInt8) :
    lossy (line ++ newline :: rest) = lossy line ++ '\n' :: lossy rest := by
  simp only [lossy, Machine.outputs_append, Machine.outputs_cons, Machine.run_append,
    Machine.run_cons, step_newline, List.append_assoc, List.cons_append, List.nil_append]

theorem ofNat_ne_newline {n : ℕ} (h : n ≠ 10) : Char.ofNat n ≠ '\n' := by
  intro hn
  by_cases hv : n.isValidChar
  · rw [Char.ofNat, dif_pos hv] at hn
    have hnat : (Char.ofNatAux n hv).toNat = n := rfl
    rw [hn] at hnat
    exact h hnat.symm
  · rw [Char.ofNat, dif_neg hv] at hn
    cases hn

theorem newline_notMem_lead {b : ℕ} (h : b ≠ 10) : '\n' ∉ (lead b).2 := by
  unfold lead
  repeat' split
  all_goals simp [replacement, (ofNat_ne_newline h).symm]

theorem newline_notMem_step {q : Option Pending} {b : UInt8} (h : b ≠ newline) :
    '\n' ∉ (step q b).2 := by
  have hb : b.toNat ≠ 10 := fun hb => h (UInt8.toNat_inj.mp hb)
  cases q with
  | none => exact newline_notMem_lead hb
  | some p =>
    rw [step]
    split
    · rename_i hr
      unfold Pending.next
      split
      · rename_i hm
        have hlarge := p.large
        rw [hm, Nat.pow_zero, Nat.mul_one] at hlarge
        have hn : p.value * 64 + (b.toNat - 0x80) ≠ 10 := by omega
        simpa using (ofNat_ne_newline hn).symm
      · simp
    · simpa [replacement] using newline_notMem_lead hb

theorem newline_notMem_lossy {bytes : List UInt8} (h : newline ∉ bytes) : '\n' ∉ lossy bytes := by
  intro hm
  rcases List.mem_append.mp hm with hm | hm
  · obtain ⟨q, b, hb, ho⟩ := Machine.exists_of_mem_outputs hm
    exact newline_notMem_step (fun e => h (e ▸ hb)) ho
  · generalize Machine.run step none bytes = q at hm
    cases q <;> simp [flush, replacement] at hm

/-- Lines are decoded one by one, and apart from what follows them. -/
theorem lossy_flatMap_append (lines : List (List UInt8)) (rest : List UInt8) :
    lossy (lines.flatMap (Lines.terminate newline) ++ rest) =
      (lines.map lossy).flatMap (Lines.terminate '\n') ++ lossy rest := by
  induction lines with
  | nil => rfl
  | cons line lines ih =>
    rw [List.flatMap_cons, Lines.terminate, List.append_assoc, List.append_assoc,
      List.singleton_append, lossy_newline, ih, List.map_cons, List.flatMap_cons,
      Lines.terminate, List.append_assoc, List.append_assoc, List.singleton_append]

section Encode

/-- The bytes of a text. -/
def encode (text : List Char) : List UInt8 := text.flatMap String.utf8EncodeChar

/-- The text of some bytes, if they are one. -/
def decode? (bytes : List UInt8) : Option String := String.fromUTF8? bytes.toByteArray

theorem decode?_encode (s : String) : decode? (encode s.toList) = some s := by
  have hbytes : (encode s.toList).toByteArray = s.toByteArray := String.utf8Encode_toList
  rw [decode?, hbytes, String.fromUTF8?, dif_pos s.isValidUTF8]
  rfl

theorem encode_append (text more : List Char) : encode (text ++ more) = encode text ++ encode more :=
  List.flatMap_append

theorem encode_newline : encode ['\n'] = [newline] := by decide

theorem ofNat_ne_newline8 {n : ℕ} (h : n % 256 ≠ 10) : newline ≠ UInt8.ofNat n := by
  intro hn
  have hnat := congrArg UInt8.toNat hn
  rw [UInt8.toNat_ofNat'] at hnat
  exact h hnat.symm

theorem newline_notMem_encode {text : List Char} (h : '\n' ∉ text) : newline ∉ encode text := by
  intro hm
  obtain ⟨c, hc, hb⟩ := List.mem_flatMap.mp hm
  have hne : c.val.toNat ≠ 10 := by
    intro h10
    refine h ((?_ : c = '\n') ▸ hc)
    exact Char.ext (UInt32.toNat_inj.mp h10)
  simp only [String.utf8EncodeChar] at hb
  generalize c.val.toNat = v at hne hb
  split at hb
  · exact ofNat_ne_newline8 (by omega) (List.mem_singleton.mp hb)
  split at hb
  · simp only [List.mem_cons, List.not_mem_nil, or_false] at hb
    rcases hb with hb | hb <;> exact ofNat_ne_newline8 (by omega) hb
  split at hb
  · simp only [List.mem_cons, List.not_mem_nil, or_false] at hb
    rcases hb with hb | hb | hb <;> exact ofNat_ne_newline8 (by omega) hb
  · simp only [List.mem_cons, List.not_mem_nil, or_false] at hb
    rcases hb with hb | hb | hb | hb <;> exact ofNat_ne_newline8 (by omega) hb

theorem toNat_ofNat {n : ℕ} (h : n < 256) : (UInt8.ofNat n).toNat = n := by
  rw [UInt8.toNat_ofNat', Nat.mod_eq_of_lt h]

/-- The last byte of a sequence. -/
theorem step_last {p : Pending} {b : UInt8} (hb : p.low ≤ b.toNat ∧ b.toNat ≤ p.high)
    (hm : p.more = 0) :
    step (some p) b = (none, [Char.ofNat (p.value * 64 + (b.toNat - 0x80))]) := by
  rw [step, dif_pos hb, Pending.next]
  split
  · rfl
  · rename_i h
    rw [h] at hm
    cases hm

/-- A byte that others follow. -/
theorem step_more {p : Pending} {b : UInt8} (hb : p.low ≤ b.toNat ∧ b.toNat ≤ p.high) {more : ℕ}
    (hm : p.more = more + 1) : ∃ q, step (some p) b = (some q, []) ∧
      q.value = p.value * 64 + (b.toNat - 0x80) ∧ q.low = 0x80 ∧ q.high = 0xBF ∧ q.more = more := by
  rw [step, dif_pos hb, Pending.next]
  split
  · rename_i h
    rw [h] at hm
    cases hm
  · rename_i h
    rw [h] at hm
    exact ⟨_, rfl, rfl, rfl, rfl, Nat.succ.inj hm⟩

/-- A sequence that was begun, and the bytes that end it. -/
theorem run_some {p : Pending} {b : ℕ} {bs : List ℕ} (hlen : bs.length = p.more)
    (hb : p.low ≤ b ∧ b ≤ p.high) (hbs : ∀ d ∈ b :: bs, 0x80 ≤ d ∧ d ≤ 0xBF) :
    Machine.run step (some p) ((b :: bs).map UInt8.ofNat) = none ∧
      Machine.outputs step (some p) ((b :: bs).map UInt8.ofNat) =
        [Char.ofNat ((b :: bs).foldl (fun v d => v * 64 + (d - 0x80)) p.value)] := by
  induction bs generalizing p b with
  | nil =>
    have hbyte : (UInt8.ofNat b).toNat = b := by
      have := hbs b List.mem_cons_self
      exact toNat_ofNat (by omega)
    have hlast := step_last (b := UInt8.ofNat b) (by rwa [hbyte]) hlen.symm
    rw [hbyte] at hlast
    rw [List.map_cons, List.map_nil, Machine.run_cons, Machine.outputs_cons, hlast]
    exact ⟨rfl, rfl⟩
  | cons c bs ih =>
    have hbyte : (UInt8.ofNat b).toNat = b := by
      have := hbs b List.mem_cons_self
      exact toNat_ofNat (by omega)
    obtain ⟨q, hq, hvalue, hlow, hhigh, hmore⟩ :=
      step_more (b := UInt8.ofNat b) (by rwa [hbyte]) hlen.symm
    have hrest : ∀ d ∈ c :: bs, 0x80 ≤ d ∧ d ≤ 0xBF := fun d hd => hbs d (List.mem_cons_of_mem _ hd)
    have hc : q.low ≤ c ∧ c ≤ q.high := by
      rw [hlow, hhigh]
      exact hrest c List.mem_cons_self
    obtain ⟨hrun, hout⟩ := ih hmore.symm hc hrest
    rw [hvalue, hbyte] at hout
    rw [List.map_cons, Machine.run_cons, Machine.outputs_cons, hq, hout]
    refine ⟨hrun, ?_⟩
    simp only [List.nil_append, List.foldl_cons]

/-- A first byte that more bytes follow. -/
theorem lead_some {b : ℕ} (h : 0xC2 ≤ b ∧ b ≤ 0xF4) : ∃ p, lead b = (some p, []) ∧
    (p.value, p.low, p.high, p.more) =
      if b ≤ 0xDF then (b - 0xC0, 0x80, 0xBF, 0)
      else if b ≤ 0xEF then
        (b - 0xE0, if b = 0xE0 then 0xA0 else 0x80, if b = 0xED then 0x9F else 0xBF, 1)
      else (b - 0xF0, if b = 0xF0 then 0x90 else 0x80, if b = 0xF4 then 0x8F else 0xBF, 2) := by
  unfold lead
  split_ifs <;> first | omega | exact ⟨_, rfl, by simp <;> omega⟩

/-- A whole sequence. -/
theorem run_lead {b : ℕ} {p : Pending} (c : ℕ) (bs : List ℕ) (hlead : lead b = (some p, []))
    (hb : b < 256) (hlen : bs.length = p.more) (hc : p.low ≤ c ∧ c ≤ p.high)
    (hbs : ∀ d ∈ c :: bs, 0x80 ≤ d ∧ d ≤ 0xBF) :
    Machine.run step none ((b :: c :: bs).map UInt8.ofNat) = none ∧
      Machine.outputs step none ((b :: c :: bs).map UInt8.ofNat) =
        [Char.ofNat ((c :: bs).foldl (fun v d => v * 64 + (d - 0x80)) p.value)] := by
  rw [List.map_cons, Machine.run_cons, Machine.outputs_cons, step, toNat_ofNat hb, hlead]
  exact run_some hlen hc hbs

/-- The bytes of a character are read as that character. -/
theorem run_encodeChar (c : Char) :
    Machine.run step none (String.utf8EncodeChar c) = none ∧
      Machine.outputs step none (String.utf8EncodeChar c) = [c] := by
  have hc : Char.ofNat c.val.toNat = c := Char.ofNat_toNat c
  have hvalid : c.val.toNat < 0xD800 ∨ 0xDFFF < c.val.toNat ∧ c.val.toNat < 0x110000 := c.valid
  rw [← hc, hc]
  simp only [String.utf8EncodeChar]
  generalize c.val.toNat = v at hc hvalid
  split_ifs with h1 h2 h3
  · have hlead : lead v = (none, [Char.ofNat v]) := by rw [lead, if_pos (by omega)]
    simp [step, toNat_ofNat (show v < 256 by omega), hlead, hc]
  · obtain ⟨p, hp, hpv⟩ := lead_some (b := v / 64 % 0x20 + 0xc0) (by omega)
    rw [if_pos (by omega)] at hpv
    simp only [Prod.mk.injEq] at hpv
    obtain ⟨hvalue, hlow, hhigh, hmore⟩ := hpv
    have hrun := run_lead (v % 0x40 + 0x80) [] hp (by omega) hmore.symm (by omega)
      (by simp; omega)
    have hval : (v / 64 % 0x20 + 0xc0 - 0xC0) * 64 + (v % 0x40 + 0x80 - 0x80) = v := by omega
    rw [List.foldl_cons, List.foldl_nil, hvalue, hval, hc] at hrun
    exact hrun
  · obtain ⟨p, hp, hpv⟩ := lead_some (b := v / 4096 % 0x10 + 0xe0) (by omega)
    rw [if_neg (by omega), if_pos (by omega)] at hpv
    simp only [Prod.mk.injEq] at hpv
    obtain ⟨hvalue, hlow, hhigh, hmore⟩ := hpv
    have hrun := run_lead (v / 64 % 0x40 + 0x80) [v % 0x40 + 0x80] hp (by omega)
      hmore.symm (by rw [hlow, hhigh]; split_ifs <;> omega) (by simp; omega)
    have hval : ((v / 4096 % 0x10 + 0xe0 - 0xE0) * 64 + (v / 64 % 0x40 + 0x80 - 0x80)) * 64 +
        (v % 0x40 + 0x80 - 0x80) = v := by omega
    rw [List.foldl_cons, List.foldl_cons, List.foldl_nil, hvalue, hval, hc] at hrun
    exact hrun
  · obtain ⟨p, hp, hpv⟩ := lead_some (b := v / 262144 % 0x08 + 0xf0) (by omega)
    rw [if_neg (by omega), if_neg (by omega)] at hpv
    simp only [Prod.mk.injEq] at hpv
    obtain ⟨hvalue, hlow, hhigh, hmore⟩ := hpv
    have hrun := run_lead (v / 4096 % 0x40 + 0x80)
      [v / 64 % 0x40 + 0x80, v % 0x40 + 0x80] hp (by omega)
      hmore.symm (by rw [hlow, hhigh]; split_ifs <;> omega) (by simp; omega)
    have hval : (((v / 262144 % 0x08 + 0xf0 - 0xF0) * 64 + (v / 4096 % 0x40 + 0x80 - 0x80)) * 64 +
        (v / 64 % 0x40 + 0x80 - 0x80)) * 64 + (v % 0x40 + 0x80 - 0x80) = v := by omega
    rw [List.foldl_cons, List.foldl_cons, List.foldl_cons, List.foldl_nil, hvalue, hval, hc] at hrun
    exact hrun

/-- A text is read back from its bytes. -/
theorem lossy_encode_append (text : List Char) (rest : List UInt8) :
    lossy (encode text ++ rest) = text ++ lossy rest := by
  induction text with
  | nil => rfl
  | cons c text ih =>
    obtain ⟨hrun, hout⟩ := run_encodeChar c
    rw [lossy] at ih
    rw [encode, List.flatMap_cons, List.append_assoc, lossy, Machine.run_append,
      Machine.outputs_append, hrun, hout, List.append_assoc, ← encode, ih]
    rfl

theorem lossy_encode (text : List Char) : lossy (encode text) = text := by
  have h := lossy_encode_append text []
  rwa [List.append_nil, show lossy [] = [] from rfl, List.append_nil] at h

theorem lead_ne_nil (b : ℕ) : (lead b).2 ++ flush (lead b).1 ≠ [] := by
  unfold lead
  split_ifs <;> simp [flush]

/-- Every byte leaves something to be read. -/
theorem step_ne_nil (q : Option Pending) (b : UInt8) : (step q b).2 ++ flush (step q b).1 ≠ [] := by
  cases q with
  | none => exact lead_ne_nil b.toNat
  | some p =>
    rw [step]
    split
    · rw [Pending.next]
      split <;> simp [flush]
    · simp

theorem lossy_ne_nil {bytes : List UInt8} (h : bytes ≠ []) : lossy bytes ≠ [] := by
  cases bytes using List.reverseRecOn with
  | nil => exact absurd rfl h
  | append_singleton bytes b =>
    rw [lossy, Machine.outputs_concat, Machine.run_concat, List.append_assoc]
    exact List.append_ne_nil_of_right_ne_nil _ (step_ne_nil _ b)

end Encode

end MultiAi.Utf8
