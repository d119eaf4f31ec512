import Mathlib.Data.List.Nodup
import Mathlib.Data.List.Perm.Basic
import Mathlib.Data.List.Count

/-! Finite sets that also have an iteration order, as the standard containers `std::set` and
`std::unordered_set` do. Where a new key comes in that order is a parameter, and the absence of
duplicates is a field. -/
namespace Lib

/-- Where a container puts a key that is new. -/
structure Placement (α : Type*) where
  place : List α → α → List α
  perm : ∀ l a, (place l a).Perm (a :: l)

def Placement.back {α : Type*} : Placement α where
  place := fun l a => l ++ [a]
  perm := fun l a => List.perm_append_singleton a l

instance {α : Type*} : Inhabited (Placement α) := ⟨.back⟩

structure IterSet (α : Type*) where
  elems : List α
  nodup : elems.Nodup

namespace IterSet
variable {α : Type*}

instance : EmptyCollection (IterSet α) := ⟨⟨[], List.nodup_nil⟩⟩
instance : Inhabited (IterSet α) := ⟨∅⟩
instance : Membership α (IterSet α) := ⟨fun s a => a ∈ s.elems⟩

@[ext] theorem ext {s t : IterSet α} (h : s.elems = t.elems) : s = t := by
  cases s; cases t; simpa using h

@[simp] theorem elems_empty : (∅ : IterSet α).elems = [] := rfl
@[simp] theorem not_mem_empty (a : α) : a ∉ (∅ : IterSet α) := List.not_mem_nil
@[simp] theorem mem_elems {s : IterSet α} {a : α} : a ∈ s.elems ↔ a ∈ s := Iff.rfl

/-- A search whose test accepts at most one key of the set finds that key, in
whatever order the keys are visited. -/
theorem find?_unique {s : IterSet α} {p : α → Bool} {a : α} (ha : a ∈ s) (hp : p a)
    (hu : ∀ b ∈ s, p b → b = a) {l : List α} (hl : l.Perm s.elems) : l.find? p = some a := by
  have hal : a ∈ l := hl.mem_iff.mpr ha
  cases h : l.find? p with
  | none => exact absurd hp (List.find?_eq_none.mp h a hal)
  | some b =>
    have hb : b ∈ s := hl.mem_iff.mp (List.mem_of_find?_eq_some h)
    rw [hu b hb (List.find?_some h)]

def size (s : IterSet α) : Nat := s.elems.length

variable [DecidableEq α]

instance (a : α) (s : IterSet α) : Decidable (a ∈ s) := inferInstanceAs (Decidable (a ∈ s.elems))

/-- `insert`: the set is left as it is when the key is already there. -/
def insert (s : IterSet α) (a : α) (p : Placement α := .back) : IterSet α :=
  if h : a ∈ s.elems then s
  else ⟨p.place s.elems a, (p.perm s.elems a).nodup_iff.mpr (List.nodup_cons.mpr ⟨h, s.nodup⟩)⟩

def erase (s : IterSet α) (a : α) : IterSet α := ⟨s.elems.erase a, s.nodup.erase a⟩

variable {p : Placement α}

theorem elems_insert {s : IterSet α} {a : α} (h : a ∉ s) : (s.insert a p).elems.Perm (a :: s.elems) := by
  have he : s.insert a p = ⟨p.place s.elems a, _⟩ := dif_neg h
  rw [he]
  exact p.perm s.elems a

theorem insert_of_mem {s : IterSet α} {a : α} (h : a ∈ s) : s.insert a p = s := dif_pos h

@[simp] theorem mem_insert {s : IterSet α} {a b : α} : b ∈ s.insert a p ↔ b = a ∨ b ∈ s := by
  by_cases h : a ∈ s
  · rw [insert_of_mem h]
    constructor
    · exact Or.inr
    · intro hb
      cases hb with
      | inl he => exact he ▸ h
      | inr hb => exact hb
  · exact (elems_insert h).mem_iff.trans List.mem_cons

@[simp] theorem mem_erase {s : IterSet α} {a b : α} : b ∈ s.erase a ↔ b ≠ a ∧ b ∈ s :=
  s.nodup.mem_erase_iff

theorem elems_insert_back {s : IterSet α} {a : α} (h : a ∉ s) : (s.insert a).elems = s.elems ++ [a] := by
  have he : s.insert a = ⟨s.elems ++ [a], _⟩ := dif_neg h
  rw [he]

@[simp] theorem elems_erase (s : IterSet α) (a : α) : (s.erase a).elems = s.elems.erase a := rfl

theorem size_insert (s : IterSet α) (a : α) : (s.insert a p).size ≤ s.size + 1 := by
  by_cases h : a ∈ s
  · rw [insert_of_mem h]
    exact Nat.le_succ s.size
  · exact Nat.le_of_eq (elems_insert h).length_eq

theorem size_erase (s : IterSet α) (a : α) : (s.erase a).size ≤ s.size := List.length_erase_le

end IterSet
end Lib
