import Std.Data.ExtTreeMap
import Mathlib.Logic.Function.Basic

/-! # Names for keys

A directory knows its files by name, and a program by what they are for. Where no two keys have
one name, the operations on names are those on keys.
-/

namespace MultiAi.Named

open Std

variable {κ β : Type*} {name : κ → String} {dir : ExtTreeMap String β} {m : κ → Option β}

/-- The files of a directory are those of the keys, under their names. -/
structure Holds (name : κ → String) (dir : ExtTreeMap String β) (m : κ → Option β) : Prop where
  file : ∀ k, dir[name k]? = m k
  names : ∀ s ∈ dir, ∃ k, s = name k

theorem Holds.empty : Holds name (∅ : ExtTreeMap String β) fun _ => none where
  file _ := ExtTreeMap.getElem?_empty
  names s hs := by simp at hs

variable [DecidableEq κ]

theorem Holds.insert (h : Holds name dir m) (hinj : Function.Injective name) (k : κ) (b : β) :
    Holds name (dir.insert (name k) b) (Function.update m k (some b)) where
  file k' := by
    rw [ExtTreeMap.getElem?_insert, Function.update_apply]
    simp only [LawfulEqCmp.compare_eq_iff_eq, hinj.eq_iff, h.file]
    simp only [eq_comm]
  names s hs := by
    rw [ExtTreeMap.mem_insert, LawfulEqCmp.compare_eq_iff_eq] at hs
    rcases hs with rfl | hs
    · exact ⟨k, rfl⟩
    · exact h.names s hs

theorem Holds.erase (h : Holds name dir m) (hinj : Function.Injective name) (k : κ) :
    Holds name (dir.erase (name k)) (Function.update m k none) where
  file k' := by
    rw [ExtTreeMap.getElem?_erase, Function.update_apply]
    simp only [LawfulEqCmp.compare_eq_iff_eq, hinj.eq_iff, h.file]
    simp only [eq_comm]
  names s hs := h.names s (ExtTreeMap.mem_of_mem_erase hs)

end MultiAi.Named
