import CleanArch.Dsa.Trie
import Mathlib.Algebra.BigOperators.Group.List.Basic
import Mathlib.Data.List.Nodup
import Mathlib.Data.Set.Card

/-!
# The nodes of a trie

`nodes` lists every node of a tree with the word that leads to it. A node is right by itself
(`NodeOk`): one child for each character, no child that is a dead end, and nothing left of a word
that has been deleted.
-/

namespace CleanArch
namespace TrieNode

open Assoc List

variable {P : Type}

/-! ## Trees -/

mutual
def nodes : TrieNode P → List (List Char × TrieNode P)
  | ⟨children, isTerminal, payloads, frequency⟩ =>
    ([], ⟨children, isTerminal, payloads, frequency⟩) :: nodesBelow children
def nodesBelow : List (Char × TrieNode P) → List (List Char × TrieNode P)
  | [] => []
  | x :: children => nodesBelowChild x ++ nodesBelow children
def nodesBelowChild : Char × TrieNode P → List (List Char × TrieNode P)
  | (char, child) => child.nodes.map fun y => (char :: y.1, y.2)
end

lemma nodesBelow_eq (children : List (Char × TrieNode P)) : nodesBelow children =
      children.flatMap fun x => x.2.nodes.map fun y => (x.1 :: y.1, y.2) := by
  induction children with
  | nil => rfl
  | cons x children ih =>
    obtain ⟨char, child⟩ := x
    rw [nodesBelow, nodesBelowChild, ih]
    rfl

variable (node : TrieNode P)

lemma nodes_eq : node.nodes = ([], node) ::
      node.children.flatMap fun x => x.2.nodes.map fun y => (x.1 :: y.1, y.2) := by
  obtain ⟨children, isTerminal, payloads, frequency⟩ := node
  rw [nodes, nodesBelow_eq]

lemma induction {motive : TrieNode P → Prop}
    (h : ∀ node : TrieNode P, (∀ x ∈ node.children, motive x.2) → motive node) :
    ∀ node, motive node := by
  refine @TrieNode.rec P motive (fun l => ∀ x ∈ l, motive x.2) (fun x => motive x.2) ?_ ?_ ?_ ?_
  · intro children isTerminal payloads frequency ih
    exact h _ ih
  · nofun
  · intro x children hx ih y hy
    rcases mem_cons.mp hy with rfl | hy
    · exact hx
    · exact ih y hy
  · intro char child ih
    exact ih

/-- The sum of a weight over the nodes, which is larger for nodes where a word ends or not. -/
def total (weight : Bool → Nat) (node : TrieNode P) : Nat :=
  (node.nodes.map fun x => weight x.2.isTerminal).sum

def totalBelow (weight : Bool → Nat) (children : List (Char × TrieNode P)) : Nat :=
  (children.map fun x => x.2.total weight).sum

variable (weight : Bool → Nat)

lemma total_eq (node : TrieNode P) :
    node.total weight = weight node.isTerminal + totalBelow weight node.children := by
  rw [total, nodes_eq, map_cons, sum_cons, map_flatMap, flatMap_def,
    sum_flatten, map_map, totalBelow]
  simp only [map_map, Function.comp_def, total]

lemma totalBelow_append (l : List (Char × TrieNode P)) :
    totalBelow weight (l ++ l') = totalBelow weight l + totalBelow weight l' := by
  rw [totalBelow, map_append, sum_append, totalBelow, totalBelow]

lemma totalBelow_cons (x : Char × TrieNode P) :
    totalBelow weight (x :: l) = x.2.total weight + totalBelow weight l := by
  rw [totalBelow, map_cons, sum_cons, totalBelow]

lemma total_one : node.total (fun _ => 1) = node.nodes.length := by
  simp [total]

lemma total_toNat : node.total Bool.toNat = (node.nodes.filter fun x => x.2.isTerminal).length := by
  rw [total]
  induction node.nodes with
  | nil => rfl
  | cons x l ih =>
    rw [map_cons, sum_cons, ih, filter_cons]
    cases x.2.isTerminal with
    | true => simp [Nat.add_comm]
    | false => simp

lemma ncard_words {l : List (List Char × TrieNode P)} (hnodup : (l.map (·.1)).Nodup)
    {s : Set (List Char)} (hs : ∀ w, w ∈ s ↔ ∃ n, (w, n) ∈ l) : s.Finite ∧ s.ncard = l.length := by
  have hset : s = ↑(l.map (·.1)).toFinset := by
    ext w
    rw [hs, Finset.mem_coe, mem_toFinset, mem_map]
    constructor
    · rintro ⟨n, hn⟩
      exact ⟨(w, n), hn, rfl⟩
    · rintro ⟨x, hx, rfl⟩
      exact ⟨x.2, hx⟩
  rw [hset]
  refine ⟨Finset.finite_toSet _, ?_⟩
  rw [Set.ncard_coe_finset, toFinset_card_of_nodup hnodup, length_map]

/-! ## Updates of a child -/

section Child

variable {node : TrieNode P} {char : Char} (weight : Bool → Nat)

lemma total_setChild_of_find (child' : TrieNode P) (h : Distinct node.children)
    (hfind : find node.children char = some child) :
    (node.setChild char child').total weight + child.total weight =
      node.total weight + child'.total weight := by
  obtain ⟨l1, k1, l2, hl, -, -, -, hset, -⟩ := h.split hfind
  have hchildren : (node.setChild char child').children = l1 ++ (k1, child') :: l2 := hset child'
  rw [total_eq, total_eq weight node, hchildren, hl, totalBelow_append, totalBelow_append,
    totalBelow_cons, totalBelow_cons]
  simp only [setChild]
  omega

lemma total_setChild_of_none (child' : TrieNode P) (hfind : find node.children char = none) :
    (node.setChild char child').total weight = node.total weight + child'.total weight := by
  have hchildren : (node.setChild char child').children = node.children ++ [(char, child')] :=
    set_of_absent (find_eq_none_iff.mp hfind)
  rw [total_eq, total_eq weight node, hchildren, totalBelow_append, totalBelow_cons]
  simp only [setChild, totalBelow, map_nil, sum_nil]
  omega

lemma total_delChild (h : Distinct node.children) (hfind : find node.children char = some child) :
    (node.delChild char).total weight + child.total weight = node.total weight := by
  obtain ⟨l1, k1, l2, hl, -, -, -, -, herase⟩ := h.split hfind
  have hchildren : (node.delChild char).children = l1 ++ l2 := herase
  rw [total_eq, total_eq weight node, hchildren, hl, totalBelow_append, totalBelow_append,
    totalBelow_cons]
  simp only [delChild]
  omega

lemma mem_setChild (h : Distinct node.children) {x : Char × TrieNode P}
    (hx : x ∈ (node.setChild char child').children) : x.2 = child' ∨ x ∈ node.children := by
  rw [setChild] at hx
  cases hfind : find node.children char with
  | none =>
    rw [set_of_absent (find_eq_none_iff.mp hfind)] at hx
    rcases mem_append.mp hx with hx | hx
    · exact Or.inr hx
    · rw [mem_singleton.mp hx]
      exact Or.inl rfl
  | some =>
    obtain ⟨l1, k1, l2, hl, -, -, -, hset, -⟩ := h.split hfind
    rw [hset] at hx
    rw [hl]
    rcases mem_append.mp hx with hx | hx
    · exact Or.inr (mem_append_left _ hx)
    · rcases mem_cons.mp hx with rfl | hx
      · exact Or.inl rfl
      · exact Or.inr (mem_append_right _ (mem_cons_of_mem _ hx))

end Child

/-! ## The invariant -/

def Alive (node : TrieNode P) : Prop := node.isTerminal = true ∨ node.children ≠ []

structure NodeOk [BEq P] (node : TrieNode P) : Prop where
  distinct : Distinct node.children
  alive : ∀ x ∈ node.children, x.2.Alive
  blank : node.isTerminal = false → node.payloads = [] ∧ node.frequency = 0
  payloads : node.payloads.Pairwise fun a b => (a == b) = false

def Ok [BEq P] (node : TrieNode P) : Prop := ∀ x ∈ node.nodes, x.2.NodeOk

section Ok

variable [BEq P] {node : TrieNode P}

lemma ok_iff : node.Ok ↔ node.NodeOk ∧ ∀ x ∈ node.children, x.2.Ok := by
  simp only [Ok, nodes_eq node, forall_mem_cons, mem_flatMap, mem_map]
  refine and_congr_right fun _ => ⟨?_, ?_⟩
  · intro h x hx y hy
    exact h (x.1 :: y.1, y.2) ⟨x, hx, y, hy, rfl⟩
  · rintro h y ⟨x, hx, z, hz, rfl⟩
    exact h x hx z hz

lemma ok_new : ({} : TrieNode P).Ok := by
  refine ok_iff.mpr ⟨⟨List.Pairwise.nil, ?_, fun _ => ⟨rfl, rfl⟩, List.Pairwise.nil⟩, ?_⟩
  all_goals
    intro x hx
    cases hx

lemma Ok.mem_nodes_iff (h : node.Ok) : (word, n) ∈ node.nodes ↔ node.walk word = some n := by
  induction word generalizing node with
  | nil =>
    rw [nodes_eq, walk]
    simp [eq_comm]
  | cons char chars ih =>
    obtain ⟨hnode, hbelow⟩ := ok_iff.mp h
    rw [nodes_eq, walk]
    simp only [mem_cons, Prod.mk.injEq, reduceCtorEq, false_and, false_or, mem_flatMap, mem_map]
    constructor
    · rintro ⟨⟨k, child⟩, hx, ⟨w, n'⟩, hy, heq, rfl⟩
      obtain ⟨rfl, rfl⟩ := List.cons.inj heq
      rw [hnode.distinct.find_of_mem hx (beq_self_eq_true k)]
      exact (ih (hbelow _ hx)).mp hy
    · intro hwalk
      cases hfind : find node.children char with
      | none =>
        rw [hfind] at hwalk
        cases hwalk
      | some child =>
        rw [hfind] at hwalk
        have hx : (char, child) ∈ node.children := mem_of_find hfind
        exact ⟨(char, child), hx, (chars, n), (ih (hbelow _ hx)).mpr hwalk, rfl, rfl⟩

lemma Ok.nodup_words (h : node.Ok) : (node.nodes.map (·.1)).Nodup := by
  induction node using induction with
  | h node ih =>
    obtain ⟨hnode, hbelow⟩ := ok_iff.mp h
    rw [nodes_eq, map_cons, map_flatMap, nodup_cons]
    refine ⟨?_, nodup_flatMap.mpr ⟨?_, ?_⟩⟩
    · intro hmem
      obtain ⟨x, -, hx⟩ := mem_flatMap.mp hmem
      simp at hx
    · intro x hx
      have hnodup := ih x hx (hbelow x hx)
      rw [map_map]
      have hmap := hnodup.map (f := fun w => x.1 :: w) fun a b hab => (List.cons.inj hab).2
      rw [map_map] at hmap
      exact hmap
    · -- the words of two children start with different characters
      refine hnode.distinct.imp fun {x y} hxy w hw hw' => ?_
      simp only [map_map] at hw hw'
      obtain ⟨a, -, rfl⟩ := mem_map.mp hw
      obtain ⟨b, -, heq⟩ := mem_map.mp hw'
      have hchar : y.1 = x.1 := (List.cons.inj heq).1
      rw [hchar, beq_self_eq_true] at hxy
      cases hxy

lemma Ok.ncard_nodes (h : node.Ok) : {w | (node.walk w).isSome}.Finite ∧
      {w | (node.walk w).isSome}.ncard = node.total (fun _ => 1) := by
  rw [total_one]
  refine ncard_words h.nodup_words fun w => ?_
  simp only [Set.mem_ofPred_eq, Option.isSome_iff_exists, h.mem_nodes_iff]

lemma Ok.of_walk {n : TrieNode P} (h : node.Ok) (hwalk : node.walk word = some n) : n.Ok := by
  induction word generalizing node with
  | nil =>
    cases hwalk
    exact h
  | cons char chars ih =>
    rw [TrieNode.walk] at hwalk
    cases hfind : find node.children char with
    | none =>
      rw [hfind] at hwalk
      cases hwalk
    | some =>
      rw [hfind] at hwalk
      exact ih ((ok_iff.mp h).2 _ (mem_of_find hfind)) hwalk

lemma Ok.alive_of_walk {n : TrieNode P} (h : node.Ok) (hword : word ≠ [])
    (hwalk : node.walk word = some n) : n.Alive := by
  induction word generalizing node with
  | nil => exact absurd rfl hword
  | cons char chars ih =>
    obtain ⟨hnode, hbelow⟩ := ok_iff.mp h
    rw [TrieNode.walk] at hwalk
    cases hfind : find node.children char with
    | none =>
      rw [hfind] at hwalk
      cases hwalk
    | some =>
      rw [hfind] at hwalk
      have hmem := mem_of_find hfind
      cases chars with
      | nil =>
        cases hwalk
        exact hnode.alive _ hmem
      | cons => exact ih (hbelow _ hmem) (by simp) hwalk

end Ok

end TrieNode
end CleanArch
