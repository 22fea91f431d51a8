import Mathlib.Data.List.Basic

/-! # JSON values

Values as they are read and written, and the readers that a record is decoded with: a field
is looked up by its name, may be absent where it has a default, and must not come twice.
-/

namespace MultiAi

/-- A JSON value; a number is carried as its text. -/
inductive Json where
  | null
  | bool (b : Bool)
  | num (text : String)
  | str (s : String)
  | arr (items : List Json)
  | obj (fields : List (String × Json))

namespace Json

mutual

/-- Whether two values are the same. -/
def decEq : (v w : Json) → Decidable (v = w)
  | .null, .null => isTrue rfl
  | .bool a, .bool b => decidable_of_iff (a = b) (by simp)
  | .num a, .num b => decidable_of_iff (a = b) (by simp)
  | .str a, .str b => decidable_of_iff (a = b) (by simp)
  | .arr a, .arr b => match decEqItems a b with
    | isTrue h => isTrue (congrArg arr h)
    | isFalse h => isFalse fun e => h (arr.inj e)
  | .obj a, .obj b => match decEqFields a b with
    | isTrue h => isTrue (congrArg obj h)
    | isFalse h => isFalse fun e => h (obj.inj e)
  | .null, .bool _ | .null, .num _ | .null, .str _ | .null, .arr _ | .null, .obj _
  | .bool _, .null | .bool _, .num _ | .bool _, .str _ | .bool _, .arr _ | .bool _, .obj _
  | .num _, .null | .num _, .bool _ | .num _, .str _ | .num _, .arr _ | .num _, .obj _
  | .str _, .null | .str _, .bool _ | .str _, .num _ | .str _, .arr _ | .str _, .obj _
  | .arr _, .null | .arr _, .bool _ | .arr _, .num _ | .arr _, .str _ | .arr _, .obj _
  | .obj _, .null | .obj _, .bool _ | .obj _, .num _ | .obj _, .str _ | .obj _, .arr _ =>
    isFalse nofun

def decEqItems : (a b : List Json) → Decidable (a = b)
  | [], [] => isTrue rfl
  | [], _ :: _ | _ :: _, [] => isFalse nofun
  | v :: a, w :: b => match decEq v w, decEqItems a b with
    | isTrue h, isTrue h' => isTrue (congrArg₂ _ h h')
    | isFalse h, _ => isFalse fun e => h (List.cons.inj e).1
    | _, isFalse h => isFalse fun e => h (List.cons.inj e).2

def decEqFields : (a b : List (String × Json)) → Decidable (a = b)
  | [], [] => isTrue rfl
  | [], _ :: _ | _ :: _, [] => isFalse nofun
  | (k, v) :: a, (l, w) :: b => match decEq v w, decEqFields a b with
    | isTrue h, isTrue h' => decidable_of_iff (k = l) (by simp [h, h'])
    | isFalse h, _ => isFalse fun e => h (Prod.mk.inj (List.cons.inj e).1).2
    | _, isFalse h => isFalse fun e => h (List.cons.inj e).2

end

instance : DecidableEq Json := decEq

def get (v : Json) (key : String) : Option Json :=
  match v with
  | .obj fields => (fields.find? (·.1 = key)).map (·.2)
  | _ => none

def asStr : Json → Option String
  | .str s => some s
  | _ => none

def asBool : Json → Option Bool
  | .bool b => some b
  | _ => none

def asArr : Json → Option (List Json)
  | .arr items => some items
  | _ => none

def asObj : Json → Option (List (String × Json))
  | .obj fields => some fields
  | _ => none

@[simp] theorem asStr_str (s : String) : asStr (.str s) = some s := rfl

@[simp] theorem asBool_bool (b : Bool) : asBool (.bool b) = some b := rfl

@[simp] theorem asArr_arr (items : List Json) : asArr (.arr items) = some items := rfl

@[simp] theorem asObj_obj (fields : List (String × Json)) : asObj (.obj fields) = some fields := rfl

/-- The number that decimal digits stand for. -/
def readNat (digits : List Char) : Option ℕ :=
  if digits ≠ [] ∧ digits.all Char.isDigit then some (Nat.ofDigitChars 10 digits 0) else none

/-- A natural number below a bound. -/
def asNat (bound : ℕ) : Json → Option ℕ
  | .num text => (readNat text.toList).filter (· < bound)
  | _ => none

def ofNat (n : ℕ) : Json := .num (toString n)

theorem readNat_toString (n : ℕ) : readNat (toString n).toList = some n := by
  have hlist : (toString n).toList = Nat.toDigits 10 n := Nat.toList_repr
  have hdigits : (Nat.toDigits 10 n).all Char.isDigit = true :=
    List.all_eq_true.mpr fun c hc => Nat.isDigit_of_mem_toDigits (by decide) (by decide) hc
  rw [hlist, readNat, if_pos ⟨Nat.toDigits_ne_nil, hdigits⟩, Nat.ofDigitChars_toDigits] <;> decide

theorem asNat_ofNat {bound n : ℕ} (h : n < bound) : asNat bound (ofNat n) = some n := by
  rw [ofNat, asNat, readNat_toString]
  simp [h]

section Fields

variable {fields : List (String × Json)} {key other : String} {v w : Json}

/-- The first field of a name. -/
def lookup (fields : List (String × Json)) (key : String) : Option Json :=
  (fields.find? (·.1 = key)).map (·.2)

/-- Set a field: in its place, or at the end if there is none. -/
def set : List (String × Json) → String → Json → List (String × Json)
  | [], key, v => [(key, v)]
  | (k, w) :: fields, key, v => if k = key then (k, v) :: fields else (k, w) :: set fields key v

@[simp] theorem lookup_nil (key : String) : lookup [] key = none := rfl

theorem lookup_cons (k : String) : lookup ((k, w) :: fields) key =
    if k = key then some w else lookup fields key := by
  by_cases h : k = key <;> simp [lookup, h]

@[simp] theorem get_obj (fields : List (String × Json)) (key : String) :
    get (.obj fields) key = lookup fields key := rfl

theorem lookup_set : lookup (set fields key v) other =
    if key = other then some v else lookup fields other := by
  induction fields with
  | nil => rw [set, lookup_cons, lookup_nil]
  | cons f fields ih =>
    obtain ⟨k, x⟩ := f
    rw [set]
    split_ifs with hk ho <;> simp only [lookup_cons, ih] <;> split_ifs <;> simp_all

theorem set_lookup (h : lookup fields key = some v) : set fields key v = fields := by
  induction fields with
  | nil => cases h
  | cons f fields ih =>
    rw [lookup_cons] at h
    rw [set]
    split_ifs at h ⊢ with hk
    · cases h
      rfl
    · rw [ih h]

theorem set_set : set (set fields key v) key w = set fields key w := by
  induction fields with
  | nil => simp [set]
  | cons f fields ih =>
    rw [set, set]
    split_ifs with hk
    · rw [set, if_pos hk]
    · rw [set, if_neg hk, ih]

/-- The other fields stay as they are. -/
theorem filter_set : (set fields key v).filter (·.1 ≠ key) = fields.filter (·.1 ≠ key) := by
  induction fields with
  | nil => simp [set]
  | cons f fields ih =>
    rw [set]
    split_ifs with hk
    · rw [List.filter_cons_of_neg (by simpa using hk), List.filter_cons_of_neg (by simpa using hk)]
    · rw [List.filter_cons_of_pos (by simpa using hk), List.filter_cons_of_pos (by simpa using hk),
        ih]

end Fields

section Readers

variable {α : Type} {read : Json → Option α} {write : α → Json}

def asList (read : Json → Option α) : Json → Option (List α)
  | .arr items => items.mapM read
  | _ => none

def asOption (read : Json → Option α) : Json → Option (Option α)
  | .null => some none
  | v => (read v).map some

def ofOption (write : α → Json) : Option α → Json
  | none => .null
  | some a => write a

theorem asList_map {as : List α} (h : ∀ a ∈ as, read (write a) = some a) :
    asList read (.arr (as.map write)) = some as := by
  rw [asList]
  induction as with
  | nil => rfl
  | cons a as ih =>
    obtain ⟨ha, has⟩ := List.forall_mem_cons.mp h
    rw [List.map_cons, List.mapM_cons, ha, ih has]
    rfl

/-- The value of a field; `missing` is what an absent one stands for. -/
def field (fields : List (String × Json)) (name : String) (read : Json → Option α)
    (missing : Option α) : Option α :=
  match fields.filter (·.1 = name) with
  | [] => missing
  | [(_, v)] => read v
  | _ :: _ :: _ => none

@[simp] theorem field_nil (name : String) (missing : Option α) :
    field [] name read missing = missing := rfl

theorem field_cons (n name : String) (v : Json) (fields : List (String × Json))
    (missing : Option α) : field ((n, v) :: fields) name read missing =
      if n = name then if fields.any (·.1 = name) then none else read v
      else field fields name read missing := by
  by_cases h : n = name
  · rw [if_pos h, field, List.filter_cons_of_pos (by simpa using h)]
    cases hf : fields.filter (·.1 = name) with
    | nil =>
      have hany : fields.any (·.1 = name) = false := by
        rw [List.any_eq_false]
        exact List.filter_eq_nil_iff.mp hf
      rw [if_neg (by rw [hany]; exact Bool.false_ne_true)]
    | cons f fs =>
      have hany : fields.any (·.1 = name) = true := by
        obtain ⟨hm, hname⟩ := List.mem_filter.mp (hf ▸ List.mem_cons_self : f ∈ fields.filter _)
        exact List.any_eq_true.mpr ⟨f, hm, hname⟩
      rw [if_pos hany]
  · rw [if_neg h, field, field, List.filter_cons_of_neg (by simpa using h)]

/-- A field that is left out where there is no value. -/
def present (name : String) (write : α → Json) (a : Option α) : List (String × Json) :=
  a.toList.map fun a => (name, write a)

@[simp] theorem present_none (name : String) : present name write none = [] := rfl

@[simp] theorem present_some (name : String) (a : α) :
    present name write (some a) = [(name, write a)] := rfl

end Readers

end Json

/-- Printing and parsing of JSON texts, and of the numbers that are 32-bit floats. -/
structure JsonCodec where
  print : Json → String
  parse : String → Option Json
  printF32 : BitVec 32 → String
  readF32 : String → Option (BitVec 32)

/-- A value that is printed without control characters and parsed back to itself. -/
structure JsonCodec.Faithful (codec : JsonCodec) (v : Json) : Prop where
  noControl : ∀ c ∈ (codec.print v).toList, 32 ≤ c.toNat
  parse_print : codec.parse (codec.print v) = some v

theorem JsonCodec.faithful_of_all {codec : JsonCodec} {v : Json}
    (hc : (codec.print v).toList.all (fun c => decide (32 ≤ c.toNat)) = true)
    (hp : codec.parse (codec.print v) = some v) : codec.Faithful v :=
  ⟨fun c h => of_decide_eq_true (List.all_eq_true.mp hc c h), hp⟩

/-- Neither infinite nor no number. -/
def FiniteF32 (x : BitVec 32) : Prop := x.extractLsb' 23 8 ≠ 255

instance : DecidablePred FiniteF32 := fun _ => inferInstanceAs (Decidable (_ ≠ _))

end MultiAi
