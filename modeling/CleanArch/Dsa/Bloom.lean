import Mathlib.Data.List.Basic

/-!
# The Bloom filter

`BloomFilter` (`app/core/dsa/bloom_filter.py`): a bit array in bytes, and `k` bit positions of each
item by double hashing. The hash is any function to 32 bytes (`Sha256`). The sizes come from
logarithms in the source; here they are any positive numbers.
-/

namespace CleanArch

open List

structure Digest where
  bytes : List (Fin 256)
  length_eq : bytes.length = 32

/-- `hashlib.sha256(text.encode("utf-8")).digest()`. -/
class Sha256 where
  digest : String → Digest

@[reducible] def zeroDigest : Sha256 where
  digest _ := ⟨List.replicate 32 0, length_replicate⟩

/-- `int.from_bytes(bytes, byteorder="big")`. -/
def intFromBytes (bytes : List (Fin 256)) : Nat := bytes.foldl (fun n b => n * 256 + b.val) 0

/-- `str | int`. -/
inductive BloomItem where
  | text (s : String)
  | number (n : Int)
  deriving DecidableEq

/-- `str(item)`. -/
def BloomItem.str : BloomItem → String
  | .text s => s
  | .number n => toString n

/-! ## Bits in bytes -/

namespace Bits

/-- `bytes[i // 8] & (1 << (i % 8))`, as a truth value. -/
def get (bytes : List (BitVec 8)) (i : Nat) : Bool :=
  bytes.getD (i / 8) 0 &&& 1#8 <<< (i % 8) != 0#8

/-- `bytes[i // 8] |= 1 << (i % 8)`. -/
def set (bytes : List (BitVec 8)) (i : Nat) : List (BitVec 8) :=
  bytes.set (i / 8) (bytes.getD (i / 8) 0 ||| 1#8 <<< (i % 8))

@[simp] lemma length_set : (set bytes i).length = bytes.length := by
  simp [set]

lemma get_eq : get bytes i = (bytes.getD (i / 8) 0).getLsbD (i % 8) := by
  have hlt : i % 8 < 8 := Nat.mod_lt _ (by decide)
  have hpow : BitVec.twoPow 8 (i % 8) ≠ 0#8 := by
    intro h
    have := congrArg (BitVec.getLsbD · (i % 8)) h
    simp [hlt] at this
  rw [get, ← BitVec.twoPow_eq, BitVec.and_twoPow]
  split <;> simp_all

lemma get_set (hi : i / 8 < bytes.length) :
    get (set bytes i) j = (get bytes j || decide (i = j)) := by
  have hlt : j % 8 < 8 := Nat.mod_lt _ (by decide)
  rw [get_eq, get_eq, set]
  by_cases hbyte : i / 8 = j / 8
  · have hiff : j % 8 = i % 8 ↔ i = j := by omega
    rw [← hbyte, getD_eq_getElem?_getD, getElem?_set_self hi, Option.getD_some,
      BitVec.getLsbD_or, ← BitVec.twoPow_eq]
    simp [hlt, hiff]
  · have hne : i ≠ j := by
      rintro rfl
      exact hbyte rfl
    simp [getElem?_set_ne hbyte, hne]

lemma get_foldl_set {is : List Nat} (his : ∀ i ∈ is, i / 8 < bytes.length) :
    get (is.foldl set bytes) j = (get bytes j || decide (j ∈ is)) := by
  induction is generalizing bytes with
  | nil => simp
  | cons i is ih =>
    rw [foldl_cons, ih (by simpa using fun i h => his i (mem_cons_of_mem _ h)),
      get_set (his i mem_cons_self)]
    by_cases hij : i = j <;> simp [hij, eq_comm (a := j)]

@[simp] lemma length_foldl_set (is : List Nat) : (is.foldl set bytes).length = bytes.length := by
  induction is generalizing bytes with
  | nil => rfl
  | cons i is ih => rw [foldl_cons, ih, length_set]

end Bits

/-! ## The filter -/

structure BloomFilter where
  bitSize : Nat
  hashCount : Nat
  bitArray : List (BitVec 8)
  count : Nat := 0
  bitSize_pos : 0 < bitSize
  hashCount_pos : 0 < hashCount
  length_eq : bitArray.length = (bitSize + 7) / 8

namespace BloomFilter

/-- `__init__`, with the sizes that it computes. -/
def new (bitSize hashCount : Nat) (hm : 0 < bitSize) (hk : 0 < hashCount) : BloomFilter where
  bitSize := bitSize
  hashCount := hashCount
  bitArray := List.replicate ((bitSize + 7) / 8) 0
  bitSize_pos := hm
  hashCount_pos := hk
  length_eq := length_replicate

def small : BloomFilter := new 2 1 (by decide) (by decide)

variable [Sha256]

def getHashIndices (f : BloomFilter) (item : BloomItem) : List Nat :=
  let digest := (Sha256.digest item.str).bytes
  let h1 := intFromBytes (digest.take 8)
  let h2 := intFromBytes ((digest.drop 8).take 8)
  let h2 := if h2 = 0 then 1 else h2
  (List.range f.hashCount).map fun i => (h1 + i * h2) % f.bitSize

def add (f : BloomFilter) (item : BloomItem) : BloomFilter :=
  { f with
    bitArray := (f.getHashIndices item).foldl Bits.set f.bitArray
    count := f.count + 1
    length_eq := by rw [Bits.length_foldl_set, f.length_eq] }

def clear (f : BloomFilter) : BloomFilter :=
  { f with
    bitArray := List.replicate ((f.bitSize + 7) / 8) 0
    count := 0
    length_eq := length_replicate }

def contains (f : BloomFilter) (item : BloomItem) : Bool :=
  (f.getHashIndices item).all (Bits.get f.bitArray)

variable (f : BloomFilter)

lemma index_lt (item : BloomItem) (hi : i ∈ f.getHashIndices item) :
    i < f.bitSize ∧ i / 8 < f.bitArray.length := by
  obtain ⟨k, -, rfl⟩ := mem_map.mp hi
  have hlt := Nat.mod_lt (intFromBytes ((Sha256.digest item.str).bytes.take 8) + k *
    (if intFromBytes (((Sha256.digest item.str).bytes.drop 8).take 8) = 0 then 1 else
      intFromBytes (((Sha256.digest item.str).bytes.drop 8).take 8))) f.bitSize_pos
  refine ⟨hlt, ?_⟩
  rw [f.length_eq]
  omega

lemma get_add : Bits.get (f.add item).bitArray i =
      (Bits.get f.bitArray i || decide (i ∈ f.getHashIndices item)) :=
  Bits.get_foldl_set (fun _ hi => (f.index_lt item hi).2)

lemma contains_add (x y : BloomItem) (h : x = y ∨ f.contains y = true) :
    (f.add x).contains y = true := by
  have hidx : (f.add x).getHashIndices y = f.getHashIndices y := rfl
  rw [contains, hidx, all_eq_true]
  intro i hi
  rw [get_add]
  rcases h with rfl | h
  · simp [hi]
  · simp [all_eq_true.mp h i hi]

/-! ## Histories -/

lemma contains_congr (h : x.str = y.str) : f.contains x = f.contains y := by
  simp only [contains, getHashIndices, h]

inductive BloomOp where
  | add (item : BloomItem)
  | clear
  deriving DecidableEq

def exec (f : BloomFilter) : BloomOp → BloomFilter
  | .add item => f.add item
  | .clear => f.clear

/-- The items that were added since the last `clear`. -/
def added (items : List BloomItem) : BloomOp → List BloomItem
  | .add item => item :: items
  | .clear => []

lemma contains_of_mem_added {f : BloomFilter} (h : ∀ x ∈ items, f.contains x = true)
    (ops : List BloomOp) : ∀ x ∈ ops.foldl added items, (ops.foldl exec f).contains x = true := by
  induction ops generalizing f items with
  | nil => exact h
  | cons op ops ih =>
    refine ih ?_
    cases op with
    | clear => exact nofun
    | add item =>
      intro x hx
      rcases mem_cons.mp hx with rfl | hx
      · exact f.contains_add x x (.inl rfl)
      · exact f.contains_add item x (.inr (h x hx))

/-- **No false negatives**, from any filter and through any history of it. -/
theorem no_false_negatives (f : BloomFilter) (ops : List BloomOp) :
    let f' := ops.foldl exec f
    (∀ item, ∀ i ∈ f'.getHashIndices item, i < f.bitSize ∧ i / 8 < f'.bitArray.length) ∧
      (∀ item i, Bits.get f'.bitArray i = true → Bits.get (f'.add item).bitArray i = true) ∧
      ∀ x ∈ ops.foldl added [], ∀ y : BloomItem, y.str = x.str → f'.contains y = true := by
  have hsize : (ops.foldl exec f).bitSize = f.bitSize := by
    refine foldlRecOn (motive := (·.bitSize = f.bitSize)) ops exec rfl fun g hg op _ => ?_
    cases op <;> exact hg
  refine ⟨fun item i hi => ?_, fun item i hi => ?_, fun x hx y hy => ?_⟩
  · exact hsize ▸ index_lt _ item hi
  · rw [get_add, hi, Bool.true_or]
  · rw [contains_congr _ hy]
    exact contains_of_mem_added (by simp) ops x hx

end BloomFilter

end CleanArch
