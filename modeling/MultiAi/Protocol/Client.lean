import Mathlib.Data.List.Basic

/-! # Client ids

An app installation has an id, of which only letters, digits, `-` and `_` are kept: it is safe in
a file name and needs no quoting.
-/

namespace MultiAi

def isIdChar (c : Char) : Bool := c.isAlphanum || c = '-' || c = '_'

def sanitizeClient (id : String) : String := String.ofList (id.toList.filter isIdChar)

/-- An id whose characters are kept. -/
abbrev ClientId := {id : String // ∀ c ∈ id.toList, isIdChar c = true}

def clientId (client : String) : ClientId :=
  ⟨sanitizeClient client, fun c hc => by
    rw [sanitizeClient, String.toList_ofList] at hc
    exact (List.mem_filter.mp hc).2⟩

theorem sanitizeClient_id (id : ClientId) : sanitizeClient id.val = id.val := by
  rw [sanitizeClient, List.filter_eq_self.mpr id.property, String.ofList_toList]

/-- What is not kept is not in an id. -/
theorem ClientId.notMem (id : ClientId) {c : Char} (h : isIdChar c = false) :
    c ∉ id.val.toList := by
  intro hc
  rw [id.property c hc] at h
  cases h

end MultiAi
