import CleanArch.Assoc.Ordered
import CleanArch.Ledger.Types
import CleanArch.Loops.Imp
import Mathlib.Data.Char
import Mathlib.Data.List.Lex

/-!
# The prefix trie

`PrefixTrie` (`app/core/dsa/trie.py`): a tree of nodes with a child for each character, and the
payloads and the frequency of a word in the node where it ends.

- **Words** are lists of characters; a key is normalised (`strip().lower()`) first.
- **Nodes** are values: a method that walks down and changes a node puts it back into its parent.
  The children are a `dict` in insertion order.
- **Payloads** are compared with `==`; no payload is `None`.
-/

namespace CleanArch

open Assoc Loops

/-- `str.lower`, next to the functions of `PyStr`. -/
class PyCase extends PyStr where
  lower : String → String

@[reducible] def asciiCase : PyCase where
  toPyStr := asciiStr
  lower s := String.ofList (s.toList.map Char.toLower)

structure TrieNode (P : Type) where
  children : List (Char × TrieNode P) := []
  isTerminal : Bool := false
  payloads : List P := []
  frequency : Int := 0

structure TrieCounts where
  wordCount : Int := 0
  nodeCount : Int := 1

structure PrefixTrie (P : Type) extends TrieCounts where
  root : TrieNode P := {}

/-- `key.strip().lower()`. -/
def normalize [PyCase] (key : String) : List Char := (PyCase.lower (PyStr.strip key)).toList

namespace TrieNode

variable {P : Type} [BEq P]

/-- `curr.children[char] = child`. -/
def setChild (node : TrieNode P) (char : Char) (child : TrieNode P) : TrieNode P :=
  { node with children := set node.children char child }

/-- `del node.children[char]`. -/
def delChild (node : TrieNode P) (char : Char) : TrieNode P :=
  { node with children := erase node.children char }

/-- The node that a walk from `node` gets to. -/
def walk : List Char → TrieNode P → Option (TrieNode P)
  | [], node => some node
  | char :: chars, node =>
    match find node.children char with
    | none => none
    | some child => child.walk chars

/-! ## `insert` -/

/-- `if payload is not None and payload not in curr.payloads: curr.payloads.append(payload)`. -/
def addPayload (payloads : List P) : Option P → List P
  | none => payloads
  | some payload => if payloads.any (· == payload) then payloads else payloads ++ [payload]

/-- What `insert` does to the node of its word. -/
def mark (node : TrieNode P) (payload : Option P) (score : Int) : TrieNode P :=
  { node with
    isTerminal := true
    payloads := addPayload node.payloads payload
    frequency := node.frequency + max score 1 }

/-- The walk of `insert`, which makes the nodes that are missing. -/
def insertAt (payload : Option P) (score : Int) :
    List Char → TrieNode P → TrieCounts → TrieNode P × TrieCounts
  | [], node, n =>
    (node.mark payload score,
      if node.isTerminal then n else { n with wordCount := n.wordCount + 1 })
  | char :: chars, node, n =>
    match find node.children char with
    | some child =>
      let (child, n) := insertAt payload score chars child n
      (node.setChild char child, n)
    | none =>
      let (child, n) := insertAt payload score chars {} { n with nodeCount := n.nodeCount + 1 }
      (node.setChild char child, n)

/-! ## `delete` -/

/-- `if payload in node.payloads: node.payloads.remove(payload)`. -/
def removePayload (node : TrieNode P) (payload : P) : TrieNode P :=
  { node with payloads := node.payloads.eraseP (· == payload) }

def unmark (node : TrieNode P) : TrieNode P :=
  { node with isTerminal := false, payloads := [], frequency := 0 }

/-- What `_prune` returns, with the node and the counts that it leaves. -/
structure Pruned (P : Type) where
  found : Bool
  canDelete : Bool
  node : TrieNode P
  counts : TrieCounts

/-- `_prune` at the node of the word. -/
def pruneHere (payload : Option P) (node : TrieNode P) (n : TrieCounts) : Pruned P :=
  if !node.isTerminal then ⟨false, false, node, n⟩
  else
    match payload with
    | some payload =>
      let node := node.removePayload payload
      if node.payloads.length > 0 then ⟨true, false, node, n⟩
      else
        ⟨true, node.children.length == 0, node.unmark, { n with wordCount := n.wordCount - 1 }⟩
    | none =>
      ⟨true, node.children.length == 0, node.unmark, { n with wordCount := n.wordCount - 1 }⟩

def prune (payload : Option P) : List Char → TrieNode P → TrieCounts → Pruned P
  | [], node, n => node.pruneHere payload n
  | char :: chars, node, n =>
    match find node.children char with
    | none => ⟨false, false, node, n⟩
    | some child =>
      let r := prune payload chars child n
      if r.canDelete then
        let node := node.delChild char
        ⟨r.found, node.children.length == 0 && !node.isTerminal, node,
          { r.counts with nodeCount := r.counts.nodeCount - 1 }⟩
      else
        ⟨r.found, false, node.setChild char r.node, r.counts⟩

end TrieNode

namespace PrefixTrie

variable {P : Type} [BEq P] [PyCase]

def insert (self : PrefixTrie P) (key : String) (payload : Option P) (score : Int) : PrefixTrie P :=
  match normalize key with
  | [] => self
  | char :: chars =>
    let (root, n) := self.root.insertAt payload score (char :: chars) self.toTrieCounts
    { toTrieCounts := n, root }

def search (self : PrefixTrie P) (key : String) : Option (List P) :=
  match normalize key with
  | [] => none
  | char :: chars =>
    match self.root.walk (char :: chars) with
    | none => none
    | some node => if node.isTerminal then some node.payloads else none

def delete (self : PrefixTrie P) (key : String) (payload : Option P) : Bool × PrefixTrie P :=
  match normalize key with
  | [] => (false, self)
  | char :: chars =>
    let r := self.root.prune payload (char :: chars) self.toTrieCounts
    (r.found, { toTrieCounts := r.counts, root := r.node })

def clear : PrefixTrie P := {}

/-! ## `autocomplete` -/

abbrev Completion (P : Type) := List Char × List P × Int

/-- One round of `while queue`. -/
def collectRound (s : List (TrieNode P × List Char) × List (Completion P)) :
    Round (List (TrieNode P × List Char) × List (Completion P)) (List (Completion P)) :=
  match s with
  | ([], results) => .done results
  | ((node, word) :: queue, results) =>
    .again
      (queue ++ node.children.map fun (char, child) => (child, word ++ [char]),
        if node.isTerminal then results ++ [(word, node.payloads, node.frequency)] else results)

/-- `(-a[2], a[0]) <= (-b[2], b[0])`. -/
def completionLe (a b : Completion P) : Bool :=
  -a.2.2 < -b.2.2 || (-a.2.2 == -b.2.2 && a.1 ≤ b.1)

/-- `autocomplete`, with at most `fuel` rounds. -/
def autocomplete (fuel : Nat) (self : PrefixTrie P) (pre : String) (limit : Int) :
    Option (List (List Char × List P)) :=
  let normalized := normalize pre
  if normalized = [] ∨ limit ≤ 0 then some []
  else
    match self.root.walk normalized with
    | none => some []
    | some node => do
      let results ← loop collectRound fuel ([(node, normalized)], [])
      let results := results.mergeSort completionLe
      return (results.take limit.toNat).map fun (word, payloads, _) => (word, payloads)

end PrefixTrie

/-! ## Clients -/

inductive TrieOp (P : Type) where
  | insert (key : String) (payload : Option P) (score : Int)
  | delete (key : String) (payload : Option P)
  | clear

namespace PrefixTrie

variable {P : Type} [BEq P] [PyCase]

def call (self : PrefixTrie P) : TrieOp P → PrefixTrie P
  | .insert key payload score => self.insert key payload score
  | .delete key payload => (self.delete key payload).2
  | .clear => clear

def run (ops : List (TrieOp P)) : PrefixTrie P := ops.foldl call {}

end PrefixTrie
end CleanArch
