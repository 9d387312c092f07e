import Mathlib.Data.List.Basic
import Mathlib.Data.List.Pairwise

/-!
# Association lists in insertion order

The list of the pairs of a map: a key that is set again keeps its place and the key that it has, a
new key goes to the end. Keys are compared with `==`, which is any equivalence.

No two keys of such a list are equal (`Distinct`), so there is at most one pair for a key.
-/

namespace CleanArch
namespace Assoc

open List

variable {K V : Type} [BEq K]

def find (l : List (K × V)) (k : K) : Option V := (l.find? fun p => p.1 == k).map (·.2)

def set (l : List (K × V)) (k : K) (v : V) : List (K × V) :=
  if l.any fun p => p.1 == k then l.map fun p => if p.1 == k then (p.1, v) else p
  else l ++ [(k, v)]

def erase (l : List (K × V)) (k : K) : List (K × V) := l.filter fun p => !(p.1 == k)

def Distinct (l : List (K × V)) : Prop := l.Pairwise fun p q => (p.1 == q.1) = false

section

variable {l : List (K × V)}

lemma find_none (h : ∀ p ∈ l, (p.1 == k) = false) : find l k = none := by
  rw [find, List.find?_eq_none.mpr]
  · rfl
  · intro p hp
    rw [h p hp]
    decide

lemma find_eq_none_iff : find l k = none ↔ ∀ p ∈ l, (p.1 == k) = false := by
  refine ⟨fun h p hp => ?_, find_none⟩
  rw [find, Option.map_eq_none_iff, List.find?_eq_none] at h
  exact Bool.eq_false_iff.mpr (h p hp)

lemma find_cons (p : K × V) (l : List (K × V)) :
    find (p :: l) k = if p.1 == k then some p.2 else find l k := by
  rw [find, List.find?_cons, find]
  cases p.1 == k with
  | true | false => rfl

lemma find_append (l l' : List (K × V)) : find (l ++ l') k = (find l k).or (find l' k) := by
  induction l with
  | nil => rfl
  | cons p l ih =>
    rw [cons_append, find_cons, find_cons, ih]
    split
    all_goals rfl

lemma mem_of_find [LawfulBEq K] (h : find l k = some v) : (k, v) ∈ l := by
  obtain ⟨⟨k1, v1⟩, hp, rfl⟩ := Option.map_eq_some_iff.mp h
  have hk := List.find?_some hp
  rw [← beq_iff_eq.mp hk]
  exact mem_of_find?_eq_some hp

lemma set_of_absent (h : ∀ p ∈ l, (p.1 == k) = false) : set l k v = l ++ [(k, v)] := by
  rw [set, if_neg]
  rw [any_eq_true]
  rintro ⟨p, hp, hk⟩
  rw [h p hp] at hk
  cases hk

lemma set_of_mem (hp : p ∈ l) (hk : (p.1 == k) = true) :
    set l k v = l.map fun p => if p.1 == k then (p.1, v) else p := by
  rw [set, if_pos (any_eq_true.mpr ⟨p, hp, hk⟩)]

lemma erase_of_absent (h : ∀ p ∈ l, (p.1 == k) = false) : erase l k = l := by
  rw [erase, filter_eq_self]
  intro p hp
  rw [h p hp]
  rfl

lemma length_set_of_mem (hp : p ∈ l) (hk : (p.1 == k) = true) : (set l k v).length = l.length := by
  rw [set_of_mem hp hk, length_map]

lemma mem_set_of_mem (hp : p ∈ l) (hk : (p.1 == k) = false) : p ∈ set l k v := by
  rw [set]
  split
  · refine mem_map.mpr ⟨p, hp, ?_⟩
    rw [hk]
    rfl
  · exact mem_append_left _ hp

lemma Distinct.after_set (h : Distinct l) (k : K) : Distinct (set l k v) := by
  by_cases hany : (l.any fun p => p.1 == k) = true
  · rw [Assoc.set, if_pos hany, Distinct, pairwise_map]
    refine h.imp fun {p q} hpq => ?_
    split <;> split <;> exact hpq
  · rw [Assoc.set, if_neg hany, Distinct, pairwise_append]
    refine ⟨h, pairwise_singleton _ _, ?_⟩
    intro p hp q hq
    rw [mem_singleton.mp hq]
    cases hpk : p.1 == k with
    | false => rfl
    | true => exact absurd (any_eq_true.mpr ⟨p, hp, hpk⟩) hany

lemma Distinct.after_erase (h : Distinct l) : Distinct (erase l k) := h.filter _

variable [EquivBEq K]

lemma Distinct.eq_of_mem {q : K × V} (h : Distinct l) (hp : p ∈ l) (hq : q ∈ l)
    (hpk : (p.1 == k) = true) (hqk : (q.1 == k) = true) : p = q := by
  have hpq : (p.1 == q.1) = true := BEq.trans hpk (BEq.symm hqk)
  by_contra hne
  have hsymm : Std.Symm fun p q : K × V => (p.1 == q.1) = false :=
    ⟨fun a b hab => by rw [BEq.comm]; exact hab⟩
  have := List.Pairwise.forall h hp hq hne
  rw [this] at hpq
  cases hpq

lemma Distinct.find_of_mem (h : Distinct l) (hp : p ∈ l) (hk : (p.1 == k) = true) :
    find l k = some p.2 := by
  rw [find]
  cases hfind : l.find? fun p => p.1 == k with
  | none => exact absurd hk (List.find?_eq_none.mp hfind p hp)
  | some =>
    have hq := List.find?_some hfind
    rw [h.eq_of_mem hp (mem_of_find?_eq_some hfind) hk hq]
    rfl

lemma Distinct.length_erase (h : Distinct l) (hp : p ∈ l) (hk : (p.1 == k) = true) :
    (erase l k).length + 1 = l.length := by
  induction l with
  | nil => cases hp
  | cons q l ih =>
    obtain ⟨hq, hl⟩ := pairwise_cons.mp h
    by_cases hqk : (q.1 == k) = true
    · -- the rest has no other pair for the key
      have hrest : erase l k = l := by
        refine erase_of_absent fun p hp => ?_
        cases hpk : p.1 == k with
        | false => rfl
        | true =>
          have := hq p hp
          rw [BEq.trans hqk (BEq.symm hpk)] at this
          cases this
      have hcons : erase (q :: l) k = erase l k := by simp [erase, hqk]
      rw [hcons, hrest, length_cons]
    · rcases mem_cons.mp hp with rfl | hp
      · exact absurd hk hqk
      · have hcons : erase (q :: l) k = q :: erase l k := by simp [erase, hqk]
        rw [hcons, length_cons, length_cons, ih hl hp]

lemma Distinct.split (h : Distinct l) (hfind : find l k = some v) :
    ∃ l1 k1 l2, l = l1 ++ (k1, v) :: l2 ∧ (k1 == k) = true ∧
      (∀ p ∈ l1, (p.1 == k) = false) ∧ (∀ p ∈ l2, (p.1 == k) = false) ∧
      (∀ v', set l k v' = l1 ++ (k1, v') :: l2) ∧ erase l k = l1 ++ l2 := by
  obtain ⟨⟨k1, v1⟩, hp, rfl⟩ := Option.map_eq_some_iff.mp hfind
  obtain ⟨hk, l1, l2, rfl, hbefore⟩ := List.find?_eq_some_iff_append.mp hp
  have hl1 : ∀ p ∈ l1, (p.1 == k) = false := by
    intro p hp
    simpa using hbefore p hp
  have hl2 : ∀ p ∈ l2, (p.1 == k) = false := by
    intro p hp
    have hne := (pairwise_cons.mp (pairwise_append.mp h).2.1).1 p hp
    cases hpk : p.1 == k with
    | false => rfl
    | true =>
      rw [BEq.trans hk (BEq.symm hpk)] at hne
      cases hne
  refine ⟨l1, k1, l2, rfl, hk, hl1, hl2, ?_, ?_⟩
  · intro v'
    have hsame : ∀ l' : List (K × V), (∀ p ∈ l', (p.1 == k) = false) →
        l'.map (fun p => if p.1 == k then (p.1, v') else p) = l' := by
      intro l' hl'
      have hid : l'.map (fun p => if p.1 == k then (p.1, v') else p) = l'.map id :=
        map_congr_left fun p hp => by simp [hl' p hp]
      rw [hid, map_id]
    rw [set_of_mem (p := (k1, v1)) (mem_append_right _ mem_cons_self) hk, map_append,
      map_cons, hsame l1 hl1, hsame l2 hl2, if_pos hk]
  · have hkept := erase_of_absent hl1
    have hkept' := erase_of_absent hl2
    rw [erase] at hkept hkept' ⊢
    rw [filter_append, filter_cons_of_neg (by simp [hk]), hkept, hkept']

lemma find_map_set (l : List (K × V)) (k k' : K) :
    find (l.map fun p => if p.1 == k then (p.1, v) else p) k' =
      if k == k' then (find l k').map fun _ => v else find l k' := by
  induction l with
  | nil => cases k == k' <;> rfl
  | cons p l ih =>
    rw [map_cons, find_cons, find_cons, ih]
    by_cases hpk : (p.1 == k) = true
    · rw [if_pos hpk, ← BEq.congr_left hpk]
      cases p.1 == k' <;> rfl
    · rw [if_neg hpk]
      by_cases hpk' : (p.1 == k') = true
      · have hne : ¬ (k == k') = true := fun hk => hpk (BEq.trans hpk' (BEq.symm hk))
        rw [if_pos hpk', if_neg hne, if_pos hpk']
      · rw [if_neg hpk', if_neg hpk']

lemma find_set (l : List (K × V)) (k k' : K) :
    find (set l k v) k' = if k == k' then some v else find l k' := by
  by_cases hany : (l.any fun p => p.1 == k) = true
  · rw [set, if_pos hany, find_map_set]
    by_cases hk : (k == k') = true
    · obtain ⟨p, hp, hpk⟩ := any_eq_true.mp hany
      cases hfind : find l k' with
      | none =>
        have hne := find_eq_none_iff.mp hfind p hp
        rw [BEq.trans hpk hk] at hne
        cases hne
      | some => rfl
    · rw [if_neg hk, if_neg hk]
  · have habsent : ∀ p ∈ l, (p.1 == k) = false := by
      intro p hp
      exact Bool.eq_false_iff.mpr fun hpk => hany (any_eq_true.mpr ⟨p, hp, hpk⟩)
    rw [set_of_absent habsent, find_append, find_cons]
    by_cases hk : (k == k') = true
    · have hnone : find l k' = none := by
        refine find_none fun p hp => ?_
        rw [← habsent p hp, BEq.congr_right hk]
      rw [if_pos hk, if_pos hk, hnone]
      rfl
    · rw [if_neg hk, if_neg hk]
      exact Option.or_none

lemma find_set_self (l : List (K × V)) (k : K) : find (set l k v) k = some v := by
  rw [find_set, if_pos BEq.rfl]

lemma mem_set (h : p ∈ set l k v) :
    ((p.1 == k) = true ∧ p.2 = v) ∨ (p ∈ l ∧ (p.1 == k) = false) := by
  by_cases hany : (l.any fun p => p.1 == k) = true
  · rw [set, if_pos hany] at h
    obtain ⟨q, hq, rfl⟩ := mem_map.mp h
    by_cases hqk : (q.1 == k) = true
    · rw [if_pos hqk]
      exact Or.inl ⟨hqk, rfl⟩
    · rw [if_neg hqk]
      exact Or.inr ⟨hq, Bool.eq_false_iff.mpr hqk⟩
  · rw [set, if_neg hany] at h
    rcases mem_append.mp h with hp | hp
    · exact Or.inr ⟨hp, Bool.eq_false_iff.mpr fun hpk =>
        hany (any_eq_true.mpr ⟨p, hp, hpk⟩)⟩
    · rw [mem_singleton.mp hp]
      exact Or.inl ⟨BEq.rfl, rfl⟩

lemma find_erase (l : List (K × V)) (k : K) :
    find (erase l k) k' = if k == k' then none else find l k' := by
  induction l with
  | nil => cases k == k' <;> rfl
  | cons p l ih =>
    by_cases hpk : (p.1 == k) = true
    · have hcons : erase (p :: l) k = erase l k := by simp [erase, hpk]
      rw [hcons, ih, find_cons, BEq.congr_left hpk]
      cases k == k' <;> rfl
    · have hcons : erase (p :: l) k = p :: erase l k := by simp [erase, hpk]
      rw [hcons, find_cons, find_cons, ih]
      by_cases hpk' : (p.1 == k') = true
      · have hne : ¬ (k == k') = true := fun hk => hpk (BEq.trans hpk' (BEq.symm hk))
        rw [if_pos hpk', if_neg hne, if_pos hpk']
      · rw [if_neg hpk', if_neg hpk']

lemma find_erase_self (l : List (K × V)) : find (erase l k) k = none := by
  rw [find_erase, if_pos BEq.rfl]

end

section

variable [LawfulBEq K]

lemma find_set_of_ne (l : List (K × V)) (hk : k' ≠ k) : find (set l k v) k' = find l k' := by
  rw [find_set, if_neg fun h => hk (eq_of_beq h).symm]

lemma find_erase_of_ne (l : List (K × V)) (hk : k' ≠ k) : find (erase l k) k' = find l k' := by
  rw [find_erase, if_neg fun h => hk (eq_of_beq h).symm]

end

end Assoc
end CleanArch
