import CleanArch.Loops.Imp
import Mathlib.Data.Int.Bitwise

/-!
# The compact hash map

`CompactHashMap` (`app/core/dsa/hash_map.py`): a sparse array of slots over a dense list of entries
in insertion order.

- **Loops** take a bound on their rounds (`fuel`); `none` is an operation that has not returned
  within it. `&` and `>>` are Python's, on integers of any sign.
- **Errors** are values. The state that an operation has changed before it raised stays changed.
-/

namespace CleanArch

open Loops

/-- A place of `_indices`: `EMPTY` (-1), `DUMMY` (-2) or an offset in `_entries`. -/
inductive Slot where
  | empty
  | dummy
  | entry (idx : Nat)
  deriving DecidableEq

structure Entry (K V : Type) where
  hash : Int
  key : K
  value : V
  isActive : Bool := true
  deriving DecidableEq

structure CompactHashMap (K V : Type) where
  capacity : Nat
  indices : List Slot
  entries : List (Entry K V)
  size : Int
  collisionCount : Nat
  maxProbeDepth : Nat
  deriving DecidableEq

inductive MapError (K : Type) where
  | keyError (key : K)
  | indexError
  deriving DecidableEq

abbrev MapM (K V α : Type) := Imp (MapError K) (CompactHashMap K V) α

/-- `INITIAL_CAPACITY`. -/
def initialCapacityDefault : Nat := 8

/-- What `_lookup` returns. -/
structure Found where
  slotIndex : Nat
  /-- `none` is `EMPTY`. -/
  entryIndex : Option Nat
  firstDummy : Option Nat
  deriving DecidableEq

/-! ## Probing -/

/-- `x & mask`. -/
def maskedSlot (mask x : Int) : Nat := (Int.land x mask).toNat

/-- The part of a probe that the recurrence moves: `i` and `perturb`. -/
structure Cursor where
  i : Nat
  perturb : Int
  deriving DecidableEq

def Cursor.start (mask hash : Int) : Cursor := ⟨maskedSlot mask hash, hash⟩

/-- `i = ((5 * i) + 1 + perturb) & mask; perturb >>= 5`. -/
def Cursor.next (mask : Int) (c : Cursor) : Cursor :=
  ⟨maskedSlot mask (5 * c.i + 1 + c.perturb), c.perturb >>> (5 : Nat)⟩

structure Probe extends Cursor where
  firstDummy : Option Nat := none
  probeDepth : Nat := 0
  collisionCount : Nat
  deriving DecidableEq

def Probe.next (mask : Int) (p : Probe) : Probe :=
  { p with
    toCursor := p.toCursor.next mask
    probeDepth := p.probeDepth + 1
    collisionCount := p.collisionCount + 1 }

namespace CompactHashMap

variable {K V α : Type} [BEq K]

def mask (self : CompactHashMap K V) : Int := (self.capacity : Int) - 1

def startProbe (self : CompactHashMap K V) (hash : Int) : Probe :=
  { toCursor := .start self.mask hash, collisionCount := self.collisionCount }

/-- One round of the loop of `_lookup`. -/
def lookupRound (key : K) (hashVal : Int) (self : CompactHashMap K V) (p : Probe) :
    Round Probe (Probe × Except (MapError K) Found) :=
  match self.indices[p.i]? with
  | none => .done (p, .error .indexError)
  | some .empty => .done (p, .ok ⟨p.firstDummy.getD p.i, none, p.firstDummy⟩)
  | some .dummy => .again (Probe.next self.mask { p with firstDummy := p.firstDummy.getD p.i })
  | some (.entry idx) =>
    match self.entries[idx]? with
    | none => .done (p, .error .indexError)
    | some entry =>
      if entry.isActive && entry.hash == hashVal && entry.key == key then
        .done (p, .ok ⟨p.i, some idx, p.firstDummy⟩)
      else
        .again (p.next self.mask)

/-- One round of the loop of `_resize` that looks for a place. -/
def reindexRound (self : CompactHashMap K V) (p : Probe) :
    Round Probe (Probe × Except (MapError K) Nat) :=
  match self.indices[p.i]? with
  | none => .done (p, .error .indexError)
  | some .empty => .done (p, .ok p.i)
  | some _ => .again (p.next self.mask)

def probe (fuel : Nat) (hash : Int)
    (round : CompactHashMap K V → Probe → Round Probe (Probe × Except (MapError K) α)) :
    MapM K V α := do
  let self ← getThe (CompactHashMap K V)
  let (p, result) ← (loop (round self) fuel (self.startProbe hash) : Option _)
  set { self with collisionCount := p.collisionCount }
  let found ← result
  modify fun self => { self with maxProbeDepth := max self.maxProbeDepth p.probeDepth }
  return found

def lookup (fuel : Nat) (key : K) (hashVal : Int) : MapM K V Found :=
  probe fuel hashVal (lookupRound key hashVal)

/-- `self._entries.append(entry)`. -/
def push (self : CompactHashMap K V) (entry : Entry K V) : CompactHashMap K V :=
  { self with entries := self.entries ++ [entry] }

/-- The body of the loop of `_resize` over the old entries. -/
def reindex (fuel : Nat) (entry : Entry K V) : MapM K V Unit := do
  if entry.isActive then
    let newEntryIdx := (← getThe (CompactHashMap K V)).entries.length
    modify (push · entry)
    let i ← probe fuel entry.hash reindexRound
    modify fun self => { self with indices := self.indices.set i (.entry newEntryIdx) }

def emptied (self : CompactHashMap K V) (newCapacity : Nat) : CompactHashMap K V :=
  { self with
    entries := []
    indices := List.replicate newCapacity .empty
    capacity := newCapacity }

def resize (fuel : Nat) (newCapacity : Nat) : MapM K V Unit := do
  let oldEntries := (← getThe (CompactHashMap K V)).entries
  modify (emptied · newCapacity)
  oldEntries.forM (reindex fuel)

/-! ## Operations -/

variable (hash : K → Int)

/-- `while capacity < initial_capacity: capacity <<= 1`. -/
def capacityRound (initialCapacity : Int) (capacity : Nat) : Round Nat Nat :=
  if capacity < initialCapacity then .again (capacity <<< 1) else .done capacity

def init (fuel : Nat) (initialCapacity : Int) : Option (CompactHashMap K V) := do
  let capacity ← loop (capacityRound initialCapacity) fuel initialCapacityDefault
  return {
    capacity
    indices := List.replicate capacity .empty
    entries := []
    size := 0
    collisionCount := 0
    maxProbeDepth := 0 }

/-- `(len(self._entries) + 1) * 3 >= self._capacity * 2`. -/
def isFull (self : CompactHashMap K V) : Bool :=
  (self.entries.length + 1) * 3 ≥ self.capacity * 2

/-- The end of `__setitem__`: a new entry, and its slot. -/
def append (self : CompactHashMap K V) (slot : Nat) (entry : Entry K V) : CompactHashMap K V :=
  { self with
    entries := self.entries ++ [entry]
    indices := self.indices.set slot (.entry self.entries.length)
    size := self.size + 1 }

/-- `self._entries[idx].value = value`. -/
def setValue (self : CompactHashMap K V) (idx : Nat) (value : V) : CompactHashMap K V :=
  { self with entries := self.entries.modify idx fun entry => { entry with value := value } }

def setitem (fuel : Nat) (key : K) (value : V) : MapM K V Unit := do
  let hashVal := hash key
  let found ← lookup fuel key hashVal
  match found.entryIndex with
  | some idx => modify (setValue · idx value)
  | none =>
    if isFull (← getThe (CompactHashMap K V)) then
      resize fuel ((← getThe (CompactHashMap K V)).capacity * 2)
      let found ← lookup fuel key hashVal
      modify (append · found.slotIndex { hash := hashVal, key, value })
    else
      modify (append · found.slotIndex { hash := hashVal, key, value })

def getitem (fuel : Nat) (key : K) : MapM K V V := do
  let found ← lookup fuel key (hash key)
  match found.entryIndex with
  | none => throw (.keyError key)
  | some idx =>
    match (← getThe (CompactHashMap K V)).entries[idx]? with
    | none => throw .indexError
    | some entry => return entry.value

/-- `__contains__`, of a key that has a hash. -/
def contains (fuel : Nat) (key : K) : MapM K V Bool := do
  let found ← lookup fuel key (hash key)
  return found.entryIndex.isSome

def len : MapM K V Int := do
  return (← getThe (CompactHashMap K V)).size

/-- `get`. -/
def getDefault (fuel : Nat) (key : K) (default : Option V) : MapM K V (Option V) :=
  tryCatch (do return some (← getitem hash fuel key)) fun
    | .keyError _ => return default
    | e => throw e

/-- What `delete` does to a map that has the key. -/
def remove (self : CompactHashMap K V) (slot idx : Nat) : CompactHashMap K V :=
  { self with
    entries := self.entries.modify idx fun entry => { entry with isActive := false }
    indices := self.indices.set slot .dummy
    size := self.size - 1 }

def delete (fuel : Nat) (key : K) : MapM K V Bool := do
  let found ← lookup fuel key (hash key)
  match found.entryIndex with
  | none => return false
  | some idx =>
    modify (remove · found.slotIndex idx)
    return true

def delitem (fuel : Nat) (key : K) : MapM K V Unit := do
  if !(← delete hash fuel key) then
    throw (.keyError key)

def active (self : CompactHashMap K V) : List (Entry K V) := self.entries.filter (·.isActive)

def keys : MapM K V (List K) := do
  return (← getThe (CompactHashMap K V)).active.map (·.key)

def values : MapM K V (List V) := do
  return (← getThe (CompactHashMap K V)).active.map (·.value)

def items : MapM K V (List (K × V)) := do
  return (← getThe (CompactHashMap K V)).active.map fun e => (e.key, e.value)

/-- What `clear` leaves. -/
def cleared : CompactHashMap K V where
  capacity := initialCapacityDefault
  indices := List.replicate initialCapacityDefault .empty
  entries := []
  size := 0
  collisionCount := 0
  maxProbeDepth := 0

def clear : MapM K V Unit := set (cleared : CompactHashMap K V)

end CompactHashMap

/-! ## Clients -/

inductive MapOp (K V : Type) where
  | setitem (key : K) (value : V)
  | getitem (key : K)
  | getDefault (key : K) (default : Option V)
  | contains (key : K)
  | delete (key : K)
  | delitem (key : K)
  | clear
  | len
  | keys
  | values
  | items

inductive MapOut (K V : Type) where
  | none
  | value (v : V)
  | optional (v : Option V)
  | bool (b : Bool)
  | int (n : Int)
  | keys (ks : List K)
  | values (vs : List V)
  | items (kvs : List (K × V))
  deriving DecidableEq

namespace CompactHashMap

variable {K V : Type} [BEq K] (hash : K → Int)

def call (fuel : Nat) : MapOp K V → MapM K V (MapOut K V)
  | .setitem key value => do
    setitem hash fuel key value
    return .none
  | .getitem key => do return .value (← getitem hash fuel key)
  | .getDefault key default => do return .optional (← getDefault hash fuel key default)
  | .contains key => do return .bool (← contains hash fuel key)
  | .delete key => do return .bool (← delete hash fuel key)
  | .delitem key => do
    delitem hash fuel key
    return .none
  | .clear => do
    clear
    return .none
  | .len => do return .int (← len)
  | .keys => do return .keys (← keys)
  | .values => do return .values (← values)
  | .items => do return .items (← items)

/-- The calls of a client, one after the other: what each one returned or raised, and the map at
the end. -/
def runOps (fuel : Nat) : List (MapOp K V) → CompactHashMap K V →
    Option (List (Except (MapError K) (MapOut K V)) × CompactHashMap K V)
  | [], m => some ([], m)
  | op :: ops, m => do
    let (out, m') ← exec (call hash fuel op) m
    let (outs, m'') ← runOps fuel ops m'
    return (out :: outs, m'')

end CompactHashMap
end CleanArch
