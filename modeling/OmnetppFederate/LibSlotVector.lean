import Mathlib.Data.List.Basic
import Mathlib.Logic.Function.Basic
import Mathlib.Tactic.SplitIfs

/-! A vector of slots, each empty or holding a value. It is grown to a size, never shrunk, and its slots
are filled and cleared one at a time; positions beyond the size read as empty. -/

namespace OmnetppFederate.Lib

variable {α : Type*}

structure SlotVector (α : Type*) where
  slots : List (Option α)

namespace SlotVector

def empty : SlotVector α := ⟨[]⟩

def size (v : SlotVector α) : Nat := v.slots.length

/-- What the slot holds. -/
def get (v : SlotVector α) (i : Nat) : Option α := v.slots[i]?.join

/-- Add empty slots up to the size. -/
def grow (v : SlotVector α) (size : Nat) : SlotVector α :=
  ⟨v.slots ++ List.replicate (size - v.slots.length) none⟩

def put (v : SlotVector α) (i : Nat) (a : α) : SlotVector α := ⟨v.slots.set i (some a)⟩

def clear (v : SlotVector α) (i : Nat) : SlotVector α := ⟨v.slots.set i none⟩

@[simp] theorem size_grow (v : SlotVector α) (size : Nat) : (v.grow size).size = max v.size size := by
  simp only [SlotVector.size, grow, List.length_append, List.length_replicate]
  omega

@[simp] theorem size_put (v : SlotVector α) (i : Nat) (a : α) : (v.put i a).size = v.size :=
  List.length_set

@[simp] theorem size_clear (v : SlotVector α) (i : Nat) : (v.clear i).size = v.size := List.length_set

theorem lt_size_of_get {v : SlotVector α} {i : Nat} {a : α} (h : v.get i = some a) : i < v.size := by
  by_contra hsize
  rw [get, List.getElem?_eq_none (Nat.le_of_not_lt hsize)] at h
  cases h

/-- Growing keeps the slots and adds empty ones. -/
@[simp] theorem get_grow (v : SlotVector α) (size i : Nat) : (v.grow size).get i = v.get i := by
  rw [get, get, grow]
  by_cases hi : i < v.slots.length
  · rw [List.getElem?_append_left hi]
  · rw [List.getElem?_append_right (Nat.le_of_not_lt hi), List.getElem?_eq_none (Nat.le_of_not_lt hi),
      List.getElem?_replicate]
    split_ifs <;> rfl

theorem get_put_self {v : SlotVector α} {i : Nat} (hi : i < v.size) (a : α) :
    (v.put i a).get i = some a := by
  rw [get, put, List.getElem?_set_self hi]
  rfl

theorem get_put_of_ne (v : SlotVector α) {i j : Nat} (hij : i ≠ j) (a : α) :
    (v.put i a).get j = v.get j := by
  rw [get, put, List.getElem?_set_ne hij]
  rfl

@[simp] theorem get_clear_self (v : SlotVector α) (i : Nat) : (v.clear i).get i = none := by
  rw [get, clear]
  by_cases hi : i < v.slots.length
  · rw [List.getElem?_set_self hi]
    rfl
  · rw [List.getElem?_eq_none (by simpa using hi)]
    rfl

theorem get_clear_of_ne (v : SlotVector α) {i j : Nat} (hij : i ≠ j) : (v.clear i).get j = v.get j := by
  rw [get, clear, List.getElem?_set_ne hij]
  rfl

/-! ### Vectors that hold a map

A map on the integers is held by a vector if every slot has what the map has at its index. -/

def Mirrors (v : SlotVector α) (f : Int → Option α) : Prop := ∀ i : Nat, v.get i = f i

theorem mirrors_empty : (empty : SlotVector α).Mirrors fun _ => none := fun _ => rfl

namespace Mirrors

variable {v : SlotVector α} {f : Int → Option α} {n : Int}

theorem get_toNat (h : v.Mirrors f) (hn : 0 ≤ n) : v.get n.toNat = f n := by
  rw [h, Int.toNat_of_nonneg hn]

theorem grow (h : v.Mirrors f) (size : Nat) : (v.grow size).Mirrors f := fun i => by
  rw [get_grow, h i]

theorem put (h : v.Mirrors f) (hn : 0 ≤ n) (hsize : n < v.size) (a : α) :
    (v.put n.toNat a).Mirrors (Function.update f n (some a)) := by
  intro i
  by_cases hi : n.toNat = i
  · have hni : (i : Int) = n := by omega
    rw [hi, get_put_self (by omega), hni, Function.update_self]
  · rw [get_put_of_ne v hi, Function.update_of_ne (by omega), h i]

theorem clear (h : v.Mirrors f) (hn : 0 ≤ n) : (v.clear n.toNat).Mirrors (Function.update f n none) := by
  intro i
  by_cases hi : n.toNat = i
  · have hni : (i : Int) = n := by omega
    rw [hi, get_clear_self, hni, Function.update_self]
  · rw [get_clear_of_ne v hi, Function.update_of_ne (by omega), h i]

/-- One vector of a family is replaced together with its map. -/
theorem update {ι : Type*} [DecidableEq ι] {vs : ι → SlotVector α} {fs : ι → Int → Option α}
    (hs : ∀ k, (vs k).Mirrors (fs k)) {k : ι} (h : v.Mirrors f) (j : ι) :
    (Function.update vs k v j).Mirrors (Function.update fs k f j) := by
  by_cases hj : j = k
  · subst hj
    rw [Function.update_self, Function.update_self]
    exact h
  · rw [Function.update_of_ne hj, Function.update_of_ne hj]
    exact hs j

end Mirrors

end SlotVector

end OmnetppFederate.Lib
