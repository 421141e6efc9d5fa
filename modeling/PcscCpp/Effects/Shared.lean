import Mathlib.Data.List.Perm.Basic
import Mathlib.Logic.Function.Basic

/-! Objects that are shared through counted references, as by `std::shared_ptr`. -/

namespace Effects

/-- The objects made so far, the destroyed ones included, and for each place the number
of references to it.  An object is destroyed with its last reference. -/
structure Heap (α : Type) where
  values : List α
  useCount : Nat → Nat

namespace Heap

variable {α : Type} {h : Heap α} {owners : List Nat} {i : Nat}

def empty : Heap α := ⟨[], fun _ => 0⟩

def make (h : Heap α) (value : α) : Heap α :=
  ⟨h.values ++ [value], Function.update h.useCount h.values.length 1⟩

def retain (h : Heap α) (i : Nat) : Heap α :=
  { h with useCount := Function.update h.useCount i (h.useCount i + 1) }

def release (h : Heap α) (i : Nat) : Heap α :=
  { h with useCount := Function.update h.useCount i (h.useCount i - 1) }

@[simp] theorem values_make (h : Heap α) (value : α) :
    (h.make value).values = h.values ++ [value] := rfl

@[simp] theorem values_release (h : Heap α) (i : Nat) : (h.release i).values = h.values := rfl

theorem getElem?_make {a b : α} :
    (h.make a).values[i]? = some b ↔ h.values[i]? = some b ∨ i = h.values.length ∧ b = a := by
  rw [values_make, List.getElem?_append]
  split_ifs with hi
  · simp [Nat.ne_of_lt hi]
  · have hnone : h.values[i]? = none := List.getElem?_eq_none (Nat.not_lt.mp hi)
    rw [hnone, List.getElem?_singleton]
    have hplace : i - h.values.length = 0 ↔ i = h.values.length := by omega
    simp [hplace, eq_comm]

@[simp] theorem useCount_make_self (h : Heap α) (a : α) :
    (h.make a).useCount h.values.length = 1 := Function.update_self _ _ _

theorem useCount_make_of_ne (hi : i ≠ h.values.length) (a : α) :
    (h.make a).useCount i = h.useCount i := Function.update_of_ne hi _ _

theorem useCount_retain (h : Heap α) (i j : Nat) :
    (h.retain i).useCount j = if j = i then h.useCount i + 1 else h.useCount j := by
  simp only [retain, Function.update_apply]

theorem useCount_release (h : Heap α) (i j : Nat) :
    (h.release i).useCount j = if j = i then h.useCount i - 1 else h.useCount j := by
  simp only [release, Function.update_apply]

structure Counted (owners : List Nat) (h : Heap α) : Prop where
  bound : ∀ i ∈ owners, i < h.values.length
  count : ∀ i, h.useCount i = owners.count i

namespace Counted

theorem empty : Counted [] (Heap.empty : Heap α) := ⟨by simp, fun _ => rfl⟩

theorem perm {owners' : List Nat} (hc : Counted owners h) (hp : owners.Perm owners') :
    Counted owners' h :=
  ⟨fun i hi => hc.bound i (hp.mem_iff.mpr hi), fun i => by rw [hc.count, hp.count_eq]⟩

theorem useCount_ne_zero (hc : Counted owners h) (hi : i ∈ owners) : h.useCount i ≠ 0 := by
  rw [hc.count]
  exact Nat.ne_of_gt (List.count_pos_iff.mpr hi)

theorem make (hc : Counted owners h) (value : α) :
    Counted (h.values.length :: owners) (h.make value) where
  bound i hi := by
    rw [values_make, List.length_append, List.length_singleton]
    rcases List.mem_cons.mp hi with rfl | hi
    · omega
    · have := hc.bound i hi
      omega
  count i := by
    have hfresh : owners.count h.values.length = 0 :=
      List.count_eq_zero.mpr fun hmem => Nat.lt_irrefl _ (hc.bound _ hmem)
    by_cases hi : i = h.values.length
    · subst hi
      simp [hfresh]
    · rw [List.count_cons_of_ne (Ne.symm hi), ← hc.count, useCount_make_of_ne hi]

theorem retain (hc : Counted owners h) (hi : i < h.values.length) :
    Counted (i :: owners) (h.retain i) where
  bound j hj := by
    rcases List.mem_cons.mp hj with rfl | hj
    · exact hi
    · exact hc.bound j hj
  count j := by
    rw [useCount_retain, hc.count, hc.count]
    by_cases hj : j = i
    · subst hj
      simp
    · simp [hj, List.count_cons_of_ne (Ne.symm hj)]

theorem release (hc : Counted (i :: owners) h) : Counted owners (h.release i) where
  bound j hj := hc.bound j (List.mem_cons_of_mem i hj)
  count j := by
    rw [useCount_release, hc.count, hc.count]
    by_cases hj : j = i
    · subst hj
      simp
    · simp [hj, List.count_cons_of_ne (Ne.symm hj)]

theorem release_eq_zero (hc : Counted (i :: owners) h) :
    (h.release i).useCount i = 0 ↔ i ∉ owners := by
  rw [hc.release.count, List.count_eq_zero]

end Counted

end Heap

end Effects
