import CleanArch.Assoc.Ordered

/-!
# Objects and references

Mutable objects, in a language whose values are references. A reference is the place of its object
in the heap; objects are never freed. A dictionary of references shows its objects as they are now
(`deref`).
-/

namespace CleanArch
namespace Objects

abbrev Ref := Nat

structure Heap (α : Type) where
  objects : List α := []
  deriving DecidableEq

namespace Heap

variable {α K : Type}

def size (h : Heap α) : Ref := h.objects.length

def alloc (h : Heap α) (a : α) : Heap α := ⟨h.objects ++ [a]⟩

def write (h : Heap α) (r : Ref) (a : α) : Heap α := ⟨h.objects.set r a⟩

variable (h : Heap α)

@[simp] lemma size_alloc : (h.alloc a).size = h.size + 1 := by
  simp [alloc, size]

@[simp] lemma size_write : (h.write r a).size = h.size := by
  simp [write, size]

variable [Inhabited α]

def read (h : Heap α) (r : Ref) : α := h.objects.getD r default

@[simp] lemma read_alloc_self : (h.alloc a).read h.size = a := by
  simp [read, alloc, size]

lemma read_alloc_of_lt {h : Heap α} (hr : r < h.size) (a : α) : (h.alloc a).read r = h.read r := by
  simp [read, alloc, List.getElem?_append_left hr]

lemma read_write_self {h : Heap α} (hr : r < h.size) (a : α) : (h.write r a).read r = a := by
  unfold size at hr
  simp [read, write, hr]

lemma read_write_of_ne (hne : r' ≠ r) : (h.write r a).read r' = h.read r' := by
  simp [read, write, List.getElem?_set_ne hne.symm]

lemma key_read_write {β : Type} (key : α → β) (h : Heap α) (r : Ref) {a : α}
    (ha : key a = key (h.read r)) (r' : Ref) : key ((h.write r a).read r') = key (h.read r') := by
  by_cases hr : r' = r
  · subst hr
    by_cases hlt : r' < h.size
    · rw [read_write_self hlt, ha]
    · have hle : h.objects.length ≤ r' := Nat.le_of_not_lt hlt
      simp [read, write, List.set_eq_of_length_le hle]
  · rw [read_write_of_ne h hr]

def deref (h : Heap α) (d : List (K × Ref)) : List (K × α) := d.map fun p => (p.1, h.read p.2)

lemma deref_congr {h h' : Heap α} {d : List (K × Ref)}
    (hsame : ∀ p ∈ d, h'.read p.2 = h.read p.2) : h'.deref d = h.deref d :=
  List.map_congr_left fun p hp => by rw [hsame p hp]

end Heap

end Objects
end CleanArch
