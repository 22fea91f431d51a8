import MultiAi.Library.Split

/-! # Targets of a connection

What a user types is split into a user, a host and a port. The forms are told apart by the last
`@`, a bracket at the start of what follows it, and the number of its colons.
-/

namespace MultiAi.Target

open Split

structure ConfigError where
  text : String
  deriving DecidableEq

/-- The number of a `u16` that digits are. -/
def digitsU16 (digits : List Char) : Option ℕ :=
  if digits = [] ∨ ¬ digits.all Char.isDigit then none
  else
    let n := Nat.ofDigitChars 10 digits 0
    if n < 65536 then some n else none

/-- A `u16` as the standard library reads one: its digits may have a `+` before them. -/
def parseU16 : List Char → Option ℕ
  | '+' :: digits => digitsU16 digits
  | digits => digitsU16 digits

def badPort (target : String) : ConfigError := ⟨s!"bad port in '{target}'"⟩

def unclosed (target : String) : ConfigError := ⟨s!"unclosed '[' in '{target}'"⟩

def portOf (target : String) (text : List Char) : Except ConfigError (Option ℕ) :=
  match parseU16 text with
  | some n => .ok (some n)
  | none => .error (badPort target)

/-- What follows a bracket. -/
def splitBracket (target : String) (inner : List Char) :
    Except ConfigError (List Char × Option ℕ) :=
  match splitOnce ']' inner with
  | none => .error (unclosed target)
  | some (addr, tail) =>
    match tail with
    | ':' :: text => (portOf target text).map (addr, ·)
    | _ => .ok (addr, none)

def splitPlain (target : String) (rest : List Char) :
    Except ConfigError (List Char × Option ℕ) :=
  match splitOnce ':' rest with
  | some (host, text) =>
    if ':' ∈ text then .ok (rest, none) else (portOf target text).map (host, ·)
  | none => .ok (rest, none)

/-- Host and port of what follows the user. -/
def splitHost (target : String) : List Char → Except ConfigError (List Char × Option ℕ)
  | '[' :: inner => splitBracket target inner
  | rest => splitPlain target rest

/-- Split `[user@]host[:port]`. A bare IPv6 address (several `:`) is kept whole unless written
as `[addr]:port`. -/
def splitTarget (target : String) :
    Except ConfigError (Option (List Char) × List Char × Option ℕ) :=
  match rsplitOnce '@' target.toList with
  | some (user, rest) => (splitHost target rest).map (some user, ·)
  | none => (splitHost target target.toList).map (none, ·)

/-- A decimal number that a port can be. -/
structure Port (text : List Char) (n : ℕ) : Prop where
  some : text ≠ []
  digits : ∀ c ∈ text, c.isDigit = true
  value : Nat.ofDigitChars 10 text 0 = n
  bound : n ≤ 65535

/-- The forms of a host and a port. -/
inductive Form : List Char → List Char → Option ℕ → Prop
  | whole {host : List Char} : host.head? ≠ some '[' → host.count ':' = 0 ∨ 2 ≤ host.count ':' →
      Form host host none
  | port {host text : List Char} {n : ℕ} : host.head? ≠ some '[' → ':' ∉ host → Port text n →
      Form (host ++ ':' :: text) host (some n)
  | bracket {host : List Char} : ']' ∉ host → Form ('[' :: host ++ [']']) host none
  | bracketPort {host text : List Char} {n : ℕ} : ']' ∉ host → Port text n →
      Form ('[' :: host ++ ']' :: ':' :: text) host (some n)

/-- A target is a form, after a user or not. -/
inductive Reads : List Char → Option (List Char) → List Char → Option ℕ → Prop
  | host {rest host : List Char} {port : Option ℕ} : '@' ∉ rest → Form rest host port →
      Reads rest none host port
  | user {user rest host : List Char} {port : Option ℕ} : '@' ∉ rest → Form rest host port →
      Reads (user ++ '@' :: rest) (some user) host port

/-- What is accepted beside the forms: text after a bracket, which is passed over, and a sign
before a port. -/
inductive Slip : List Char → List Char → Option ℕ → Prop
  | stray {host tail : List Char} : ']' ∉ host → tail ≠ [] → tail.head? ≠ some ':' →
      Slip ('[' :: host ++ ']' :: tail) host none
  | signed {host text : List Char} {n : ℕ} : host.head? ≠ some '[' → ':' ∉ host → Port text n →
      Slip (host ++ ':' :: '+' :: text) host (some n)
  | signedBracket {host text : List Char} {n : ℕ} : ']' ∉ host → Port text n →
      Slip ('[' :: host ++ ']' :: ':' :: '+' :: text) host (some n)

variable {target : String} {rest host text : List Char} {port : Option ℕ} {n : ℕ}

theorem Port.unsigned (h : Port ('+' :: text) n) : False :=
  absurd (h.digits '+' List.mem_cons_self) (by decide)

theorem digitsU16_iff : digitsU16 text = some n ↔ Port text n := by
  simp only [digitsU16]
  constructor
  · intro h
    split_ifs at h with hno hlt
    cases h
    rw [not_or, not_not, List.all_eq_true] at hno
    exact ⟨hno.1, hno.2, rfl, Nat.le_of_lt_succ hlt⟩
  · rintro ⟨hsome, hdigits, rfl, hbound⟩
    rw [if_neg, if_pos (Nat.lt_succ_of_le hbound)]
    rw [not_or, not_not, List.all_eq_true]
    exact ⟨hsome, hdigits⟩

theorem parseU16_iff :
    parseU16 text = some n ↔ Port text n ∨ ∃ digits, text = '+' :: digits ∧ Port digits n := by
  unfold parseU16
  split
  · rename_i digits
    rw [digitsU16_iff]
    constructor
    · exact fun h => Or.inr ⟨digits, rfl, h⟩
    · rintro (h | ⟨_, ⟨⟩, h⟩)
      · exact h.unsigned.elim
      · exact h
  · rename_i hsign
    rw [digitsU16_iff]
    constructor
    · exact Or.inl
    · rintro (h | ⟨digits, rfl, -⟩)
      · exact h
      · exact (hsign digits rfl).elim

theorem portOf_iff : portOf target text = .ok port ↔
    ∃ n, port = some n ∧ (Port text n ∨ ∃ digits, text = '+' :: digits ∧ Port digits n) := by
  simp only [← parseU16_iff, portOf]
  cases parseU16 text with
  | none => simp
  | some n => simp [eq_comm]

/-- A port after a host, as it is read. -/
theorem portOf_map_iff {addr : List Char} : (portOf target text).map (addr, ·) = .ok (host, port) ↔
    addr = host ∧ ∃ n, port = some n ∧
      (Port text n ∨ ∃ digits, text = '+' :: digits ∧ Port digits n) := by
  rw [← @portOf_iff target]
  cases portOf target text with
  | error e => simp [Except.map]
  | ok port' => simp [Except.map]

theorem splitHost_plain (h : rest.head? ≠ some '[') :
    splitHost target rest = splitPlain target rest := by
  rw [splitHost]
  rintro inner rfl
  exact h rfl

/-- A port that is read, as the last part of a target. -/
theorem portOf_of_parse (h : parseU16 text = some n) (host : List Char) :
    (portOf target text).map (host, ·) = .ok (host, some n) := by
  rw [portOf, h]
  rfl

theorem splitPlain_port (hcolon : ':' ∉ host) (hp : parseU16 text = some n)
    (hone : ':' ∉ text) : splitPlain target (host ++ ':' :: text) = .ok (host, some n) := by
  simp only [splitPlain, splitOnce_append hcolon, if_neg hone, portOf_of_parse hp]

theorem splitBracket_port (hclose : ']' ∉ host) (hp : parseU16 text = some n) :
    splitBracket target (host ++ ']' :: ':' :: text) = .ok (host, some n) := by
  simp only [splitBracket, splitOnce_append hclose, portOf_of_parse hp]

theorem splitBracket_tail {tail : List Char} (hclose : ']' ∉ host) (ht : tail.head? ≠ some ':') :
    splitBracket target (host ++ ']' :: tail) = .ok (host, none) := by
  simp only [splitBracket, splitOnce_append hclose]
  split
  · exact absurd rfl ht
  · rfl

theorem Port.notMem (h : Port text n) : ':' ∉ text := fun hm =>
  absurd (h.digits ':' hm) (by decide)

theorem head?_append_colon (h : host.head? ≠ some '[') : (host ++ ':' :: text).head? ≠ some '[' := by
  cases host with
  | nil => simp
  | cons c host => exact h

/-- The forms are accepted. -/
theorem splitHost_form (h : Form rest host port) : splitHost target rest = .ok (host, port) := by
  cases h with
  | whole hhead hcount =>
    rw [splitHost_plain hhead, splitPlain]
    cases hs : splitOnce ':' rest with
    | none => rfl
    | some parts =>
      obtain ⟨pre, post⟩ := parts
      obtain ⟨rfl, hpre⟩ := splitOnce_eq_some.mp hs
      have hpost : ':' ∈ post := by
        rw [List.count_append, List.count_eq_zero.mpr hpre, List.count_cons_self] at hcount
        exact List.count_pos_iff.mp (by omega)
      simp only [if_pos hpost]
  | port hhead hcolon hp =>
    rw [splitHost_plain (head?_append_colon hhead)]
    exact splitPlain_port hcolon (parseU16_iff.mpr (Or.inl hp)) hp.notMem
  | bracket hclose => exact splitBracket_tail hclose (by simp)
  | bracketPort hclose hp => exact splitBracket_port hclose (parseU16_iff.mpr (Or.inl hp))

theorem splitHost_slip (h : Slip rest host port) : splitHost target rest = .ok (host, port) := by
  cases h with
  | stray hclose _ htail => exact splitBracket_tail hclose htail
  | @signed host digits n hhead hcolon hp =>
    rw [splitHost_plain (head?_append_colon hhead)]
    refine splitPlain_port hcolon (parseU16_iff.mpr (Or.inr ⟨digits, rfl, hp⟩)) ?_
    simpa using hp.notMem
  | @signedBracket host digits n hclose hp =>
    exact splitBracket_port hclose (parseU16_iff.mpr (Or.inr ⟨digits, rfl, hp⟩))

theorem splitBracket_sound {inner : List Char} (h : splitBracket target inner = .ok (host, port)) :
    Form ('[' :: inner) host port ∨ Slip ('[' :: inner) host port := by
  rw [splitBracket] at h
  cases hs : splitOnce ']' inner with
  | none =>
    rw [hs] at h
    cases h
  | some parts =>
    obtain ⟨addr, tail⟩ := parts
    obtain ⟨rfl, haddr⟩ := splitOnce_eq_some.mp hs
    simp only [hs] at h
    split at h
    · obtain ⟨rfl, n, rfl, hp | ⟨digits, rfl, hp⟩⟩ := portOf_map_iff.mp h
      · exact Or.inl (.bracketPort haddr hp)
      · exact Or.inr (.signedBracket haddr hp)
    · rename_i hcolon
      cases h
      cases tail with
      | nil => exact Or.inl (.bracket haddr)
      | cons c tail =>
        refine Or.inr (.stray haddr (List.cons_ne_nil c tail) fun hc => ?_)
        cases hc
        exact hcolon tail rfl

theorem splitPlain_sound (hhead : rest.head? ≠ some '[')
    (h : splitPlain target rest = .ok (host, port)) : Form rest host port ∨ Slip rest host port := by
  rw [splitPlain] at h
  cases hs : splitOnce ':' rest with
  | none =>
    rw [hs] at h
    cases h
    exact Or.inl (.whole hhead (Or.inl (List.count_eq_zero.mpr (splitOnce_eq_none.mp hs))))
  | some parts =>
    obtain ⟨pre, post⟩ := parts
    obtain ⟨rfl, hpre⟩ := splitOnce_eq_some.mp hs
    have hhead' : pre.head? ≠ some '[' := by
      cases pre with
      | nil => simp
      | cons c pre => exact hhead
    simp only [hs] at h
    split_ifs at h with hcolon
    · cases h
      refine Or.inl (.whole hhead (Or.inr ?_))
      have hmore : 0 < post.count ':' := List.count_pos_iff.mpr hcolon
      rw [List.count_append, List.count_cons_self]
      omega
    · obtain ⟨rfl, n, rfl, hp | ⟨digits, rfl, hp⟩⟩ := portOf_map_iff.mp h
      · exact Or.inl (.port hhead' hpre hp)
      · exact Or.inr (.signed hhead' hpre hp)

/-- Nothing but the forms and the slips is accepted. -/
theorem splitHost_iff :
    splitHost target rest = .ok (host, port) ↔ Form rest host port ∨ Slip rest host port := by
  constructor
  · intro h
    by_cases hhead : rest.head? = some '['
    · obtain ⟨inner, rfl⟩ := List.head?_eq_some_iff.mp hhead
      exact splitBracket_sound h
    · rw [splitHost_plain hhead] at h
      exact splitPlain_sound hhead h
  · rintro (h | h)
    · exact splitHost_form h
    · exact splitHost_slip h

/-- One colon is followed by a port. -/
theorem Form.of_plain (h : Form (host ++ ':' :: text) host port) (hhead : host.head? ≠ some '[')
    (hcolon : ':' ∉ host) : ∃ n, Port text n := by
  have hhead' : (host ++ ':' :: text).head? ≠ some '[' := head?_append_colon hhead
  generalize hr : host ++ ':' :: text = r at h hhead'
  cases h with
  | whole => simp at hr
  | port _ hcolon' hp =>
    obtain ⟨-, rfl⟩ := append_inj_of_notMem hr hcolon hcolon'
    exact ⟨_, hp⟩
  | bracket => exact absurd rfl hhead'
  | bracketPort => exact absurd rfl hhead'

/-- A bracket is followed by nothing or by a port. -/
theorem Form.of_bracket {tail : List Char} (h : Form ('[' :: host ++ ']' :: tail) host port)
    (hclose : ']' ∉ host) : tail = [] ∨ ∃ text n, tail = ':' :: text ∧ Port text n := by
  generalize hr : '[' :: host ++ ']' :: tail = r at h
  cases h with
  | whole hhead =>
    rw [← hr] at hhead
    exact absurd rfl hhead
  | port hhead =>
    cases host with
    | nil => cases (List.cons.inj hr).1
    | cons c host => exact absurd (congrArg some (List.cons.inj hr).1.symm) hhead
  | bracket hclose' =>
    obtain ⟨-, rfl⟩ := append_inj_of_notMem (List.cons.inj hr).2 hclose hclose'
    exact Or.inl rfl
  | bracketPort hclose' hp =>
    obtain ⟨-, rfl⟩ := append_inj_of_notMem (List.cons.inj hr).2 hclose hclose'
    exact Or.inr ⟨_, _, rfl, hp⟩

/-- No slip is a form. -/
theorem Slip.not_form (hs : Slip rest host port) : ¬ Form rest host port := by
  intro hf
  cases hs with
  | stray hclose hne htail =>
    obtain rfl | ⟨text, n, rfl, -⟩ := hf.of_bracket hclose
    · exact hne rfl
    · exact htail rfl
  | signed hhead hcolon =>
    obtain ⟨n, hp⟩ := hf.of_plain hhead hcolon
    exact hp.unsigned
  | signedBracket hclose =>
    rcases hf.of_bracket hclose with hnil | ⟨text, n, ⟨⟩, hp⟩
    · cases hnil
    · exact hp.unsigned

/-- What follows the user of a target. -/
def afterUser (target : List Char) : List Char :=
  ((rsplitOnce '@' target).map Prod.snd).getD target

theorem reads_iff {target : List Char} {user : Option (List Char)} : Reads target user host port ↔
    user = (rsplitOnce '@' target).map Prod.fst ∧ Form (afterUser target) host port := by
  rw [afterUser]
  constructor
  · rintro (⟨hat, hf⟩ | ⟨hat, hf⟩)
    · rw [rsplitOnce_eq_none.mpr hat]
      exact ⟨rfl, hf⟩
    · rw [rsplitOnce_append hat]
      exact ⟨rfl, hf⟩
  · cases hs : rsplitOnce '@' target with
    | none =>
      rintro ⟨rfl, hf⟩
      exact .host (rsplitOnce_eq_none.mp hs) hf
    | some parts =>
      obtain ⟨pre, post⟩ := parts
      obtain ⟨rfl, hat⟩ := rsplitOnce_eq_some.mp hs
      rintro ⟨rfl, hf⟩
      exact .user hat hf

theorem splitTarget_iff {user : Option (List Char)} :
    splitTarget target = .ok (user, host, port) ↔
      user = (rsplitOnce '@' target.toList).map Prod.fst ∧
        splitHost target (afterUser target.toList) = .ok (host, port) := by
  rw [splitTarget, afterUser]
  cases rsplitOnce '@' target.toList with
  | none =>
    simp only [Option.map_none, Option.getD_none]
    generalize splitHost target target.toList = r
    cases r <;> simp [Except.map, eq_comm]
  | some parts =>
    simp only [Option.map_some, Option.getD_some]
    generalize splitHost target parts.2 = r
    cases r <;> simp [Except.map, eq_comm]

/-- A target is split into the parts of its form, and refused without one, just if what follows
its user is no slip: no bracket is followed by text that is no port, and no port has a sign. -/
theorem split_reads_iff (target : String) :
    (∀ user host port, splitTarget target = .ok (user, host, port) ↔
      Reads target.toList user host port) ↔
    ∀ host port, ¬ Slip (afterUser target.toList) host port := by
  simp only [splitTarget_iff, reads_iff, splitHost_iff]
  constructor
  · intro h host port hs
    exact hs.not_form ((h _ host port).mp ⟨rfl, Or.inr hs⟩).2
  · intro h user host port
    rw [or_iff_left (h host port)]

/-- What stands after a bracket is passed over. -/
theorem not_split_reads : ¬ ∀ target user host port,
    splitTarget target = .ok (user, host, port) ↔ Reads target.toList user host port := by
  intro h
  have hf := (reads_iff.mp ((h "[::1]22" none "::1".toList none).mp (by decide))).2
  exact Slip.not_form (@Slip.stray "::1".toList "22".toList (by decide) (by decide) (by decide)) hf

end MultiAi.Target
