import CleanArch.Dsa.HashMap
import CleanArch.Probing.FullPeriod
import Mathlib.Data.Nat.Prime.Basic

/-!
# The invariant of the hash table

`Table m` says how the sparse array of a map is linked to its dense entries. It holds whatever
`__eq__` and the hashes are: between operations, and also inside a resize. A tombstone is not
`EMPTY`, so a delete does not cut the probes of other entries (`Chained`).
-/

namespace CleanArch

/-!
## The slots that a probe visits

The cursor of a probe in a table of `2 ^ k` slots. The perturbation is `hash >> 5 n` after `n`
rounds: it ends at `0` for a hash that is not negative, and at `-1` for a negative one. From then on
the cursor moves by `5 * i + 1` or by `5 * i`.

- `exists_after`: with a hash that is not negative, every slot is visited.
- `exists_after_iff`: with a hash of 64 bits, the visited slots are the first thirteen ones and a
  class of the later ones.
-/

open Cursor Function Int Probing

/-! ## Python's operators -/

lemma ldiff_two_pow_sub_one : Nat.ldiff (2 ^ k - 1) n = 2 ^ k - (n % 2 ^ k + 1) := by
  refine Nat.eq_of_testBit_eq fun i => ?_
  rw [Nat.testBit_ldiff, Nat.testBit_two_pow_sub_succ (Nat.mod_lt _ (Nat.two_pow_pos k)),
    Nat.testBit_two_pow_sub_one, Nat.testBit_mod_two_pow]
  cases decide (i < k) <;> simp

lemma maskedSlot_eq : (maskedSlot (2 ^ k - 1) x : Int) = x % 2 ^ k := by
  have hpos := Nat.two_pow_pos k
  have hmask : (2 ^ k - 1 : Int) = Int.ofNat (2 ^ k - 1) := by
    rw [ofNat_eq_natCast, Nat.cast_sub hpos]
    rfl
  rw [maskedSlot, hmask]
  cases x with
  | ofNat n =>
    have hand : land (Int.ofNat n) (Int.ofNat (2 ^ k - 1)) = Int.ofNat (n % 2 ^ k) :=
      congrArg Int.ofNat (Nat.and_two_pow_sub_one_eq_mod n k)
    rw [hand]
    rfl
  | negSucc n =>
    have hand : land (Int.negSucc n) (Int.ofNat (2 ^ k - 1)) =
        Int.ofNat (2 ^ k - (n % 2 ^ k + 1)) :=
      congrArg Int.ofNat (ldiff_two_pow_sub_one)
    rw [hand, negSucc_emod n (by exact_mod_cast hpos)]
    simp only [ofNat_eq_natCast, toNat_natCast]
    rw [Nat.cast_sub (by omega)]
    push_cast
    omega

lemma maskedSlot_lt : maskedSlot (2 ^ k - 1) x < 2 ^ k := by
  have hpos : (0 : Int) < 2 ^ k := Int.pow_pos (by decide)
  have hlt := Int.emod_lt_of_pos x hpos
  rw [← maskedSlot_eq] at hlt
  exact_mod_cast hlt

/-! ## The cursor -/

namespace Cursor

/-- The cursor after `n` rounds. -/
def after (mask hash : Int) (n : Nat) : Cursor := (next mask)^[n] (.start mask hash)

lemma after_succ (mask hash : Int) : after mask hash (n + 1) = (after mask hash n).next mask :=
  iterate_succ_apply' _ _ _

lemma after_i_lt (hash : Int) : (after (2 ^ k - 1) hash n).i < 2 ^ k := by
  cases n with
  | zero => exact maskedSlot_lt
  | succ =>
    rw [after_succ]
    exact maskedSlot_lt

lemma after_perturb (mask hash : Int) : (after mask hash n).perturb = hash >>> (5 * n) := by
  induction n with
  | zero => simp [after, start]
  | succ n ih =>
    rw [after_succ, next, ih, Nat.mul_succ, shiftRight_add]

def Settled (c : Cursor) : Prop := c.perturb = 0 ∨ c.perturb = -1

lemma Settled.shift {c : Cursor} (h : c.Settled) : c.perturb >>> (5 : Nat) = c.perturb := by
  rcases h with h | h
  all_goals
    rw [h]
    rfl

lemma Settled.iterate (h : c.Settled) : ((next (2 ^ k - 1))^[n] c).perturb = c.perturb ∧
      (((next (2 ^ k - 1))^[n] c).i : Int) =
        (fun z : Int => (5 * z + (1 + c.perturb)) % 2 ^ k)^[n] c.i := by
  induction n with
  | zero => exact ⟨rfl, rfl⟩
  | succ n ih =>
    obtain ⟨hperturb, hi⟩ := ih
    rw [iterate_succ_apply', iterate_succ_apply', ← hi]
    refine ⟨?_, ?_⟩
    · rw [next, hperturb]
      exact h.shift
    · rw [next, hperturb, maskedSlot_eq, add_assoc]

lemma Settled.exists_iff (h : c.Settled) (hc : c.i < 2 ^ k) (hy : y < 2 ^ k) :
    (∃ n, ((next (2 ^ k - 1))^[n] c).i = y) ↔
      (y : Int) ≡ c.i [ZMOD Int.gcd (4 * c.i + (1 + c.perturb)) (2 ^ k)] := by
  rw [← exists_iterate_iff ⟨natCast_nonneg _, by exact_mod_cast hc⟩
    ⟨natCast_nonneg _, by exact_mod_cast hy⟩]
  refine exists_congr fun n => ?_
  rw [← (h.iterate).2]
  exact Nat.cast_inj.symm

lemma exists_after (hy : y < 2 ^ k) {hash : Int} (hhash : 0 ≤ hash) :
    ∃ n, (after (2 ^ k - 1) hash n).i = y := by
  -- the perturbation is zero after `hash` rounds, if not before
  have hzero : (after (2 ^ k - 1) hash hash.toNat).perturb = 0 := by
    rw [after_perturb, shiftRight_eq_div_pow]
    refine ediv_eq_zero_of_lt hhash ?_
    have hlt : hash.toNat < 2 ^ (5 * hash.toNat) :=
      Nat.lt_two_pow_self.trans_le (Nat.pow_le_pow_right (by decide) (by omega))
    have hcast : (hash.toNat : Int) = hash := toNat_of_nonneg hhash
    rw [← hcast]
    exact_mod_cast hlt
  have hsettled : (after (2 ^ k - 1) hash hash.toNat).Settled := Or.inl hzero
  have hcop : Int.gcd (4 * ((after (2 ^ k - 1) hash hash.toNat).i : Int) + (1 + 0)) (2 ^ k) =
      1 := by
    have hodd : Nat.Coprime (4 * (after (2 ^ k - 1) hash hash.toNat).i + 1) (2 ^ k) :=
      Nat.Coprime.pow_right k (Nat.coprime_two_right.mpr
        ⟨2 * (after (2 ^ k - 1) hash hash.toNat).i, by ring⟩)
    exact_mod_cast hodd
  obtain ⟨n, hn⟩ := (hsettled.exists_iff (after_i_lt hash) hy).mpr (by
    rw [hzero, hcop]
    exact modEq_one)
  refine ⟨n + hash.toNat, ?_⟩
  rw [after, iterate_add_apply]
  exact hn

lemma after_settled (mask : Int) {hash : Int} (hhash : -2 ^ 63 ≤ hash ∧ hash < 2 ^ 63) :
    (after mask hash 13).Settled := by
  rw [Settled, after_perturb, shiftRight_eq_div_pow]
  omega

end Cursor

/-- A probe with `hash` in a table of `capacity` slots meets a slot with `stop`: one of its first
thirteen slots, or one in the class of slots that it visits after them. -/
def ProbeMeets (capacity : Nat) (hash : Int) (stop : Nat → Prop) : Prop :=
  (∃ n < 13, stop (after (capacity - 1) hash n).i) ∨
    ∃ y < capacity, stop y ∧
      (y : Int) ≡ (after (capacity - 1) hash 13).i
        [ZMOD Int.gcd (4 * (after (capacity - 1) hash 13).i +
          (1 + (after (capacity - 1) hash 13).perturb)) capacity]

instance (capacity : Nat) (hash : Int) (stop : Nat → Prop) [DecidablePred stop] :
    Decidable (ProbeMeets capacity hash stop) :=
  inferInstanceAs (Decidable (_ ∨ _))

lemma exists_after_iff {hash : Int} (hhash : -2 ^ 63 ≤ hash ∧ hash < 2 ^ 63) (stop : Nat → Prop) :
    (∃ n, stop (after ((2 ^ k : Nat) - 1) hash n).i) ↔ ProbeMeets (2 ^ k) hash stop := by
  have hsettled := after_settled (2 ^ k - 1) hhash
  have hcast : (((2 ^ k : Nat) : Int)) = 2 ^ k := by push_cast; rfl
  constructor
  · rintro ⟨n, hn⟩
    by_cases hlt : n < 13
    · exact Or.inl ⟨n, hlt, hn⟩
    · right
      refine ⟨_, after_i_lt hash, hn, ?_⟩
      refine (hsettled.exists_iff (after_i_lt hash) (after_i_lt hash)).mp ?_
      refine ⟨n - 13, ?_⟩
      rw [after, ← iterate_add_apply, Nat.sub_add_cancel (by omega)]
      rfl
  · rintro (⟨n, -, hn⟩ | ⟨y, hlt, hy, hmod⟩)
    · exact ⟨n, hn⟩
    · obtain ⟨n, rfl⟩ := (hsettled.exists_iff (after_i_lt hash) hlt).mpr hmod
      refine ⟨n + 13, ?_⟩
      exact hy

namespace CompactHashMap

open List

variable {K V : Type} {m m' : CompactHashMap K V}

/-- The slot of the `n`-th round of a probe. -/
def slotAt (m : CompactHashMap K V) (hash : Int) (n : Nat) : Option Slot :=
  m.indices[(Cursor.after m.mask hash n).i]?

/-- A probe with `hash` gets to round `n` if it stops at `EMPTY` only. -/
def Unbroken (m : CompactHashMap K V) (hash : Int) (n : Nat) : Prop :=
  ∀ j < n, m.slotAt hash j ≠ some .empty

/-- The entry at `idx` is found by a probe with `hash`. -/
def Chained (m : CompactHashMap K V) (hash : Int) (idx : Nat) : Prop :=
  ∃ n, m.slotAt hash n = some (.entry idx) ∧ m.Unbroken hash n

/-- A new entry with `hash` may be put at `slot`. -/
def Opening (m : CompactHashMap K V) (hash : Int) (slot : Nat) : Prop :=
  (m.indices[slot]? = some .empty ∨ m.indices[slot]? = some .dummy) ∧
    ∃ n, (Cursor.after m.mask hash n).i = slot ∧ m.Unbroken hash n

/-- The number of slots that are not `EMPTY`. -/
def used (m : CompactHashMap K V) : Nat := m.indices.countP (· ≠ .empty)

structure Table (m : CompactHashMap K V) : Prop where
  pow : ∃ k, m.capacity = 2 ^ k
  length : m.indices.length = m.capacity
  live : ∀ {i idx : Nat}, m.indices[i]? = some (.entry idx) →
    ∃ e, m.entries[idx]? = some e ∧ e.isActive = true
  inj : ∀ {i j idx : Nat},
    m.indices[i]? = some (.entry idx) → m.indices[j]? = some (.entry idx) → i = j
  chain : ∀ {idx : Nat} {e : Entry K V},
    m.entries[idx]? = some e → e.isActive = true → m.Chained e.hash idx
  used_le : m.used ≤ m.entries.length

lemma Table.congr (h : m.Table) (hcap : m'.capacity = m.capacity)
    (hind : m'.indices = m.indices) (hent : m'.entries = m.entries) : m'.Table := by
  obtain ⟨pow, length, live, inj, chain, used_le⟩ := h
  cases m
  cases m'
  cases hcap
  cases hind
  cases hent
  exact ⟨pow, length, live, inj, chain, used_le⟩

lemma Table.mask_eq (h : m.Table) : ∃ k, m.capacity = 2 ^ k ∧ m.mask = 2 ^ k - 1 := by
  obtain ⟨k, hk⟩ := h.pow
  refine ⟨k, hk, ?_⟩
  rw [mask, hk]
  rfl

lemma Table.slotAt_isSome (h : m.Table) (hash : Int) : ∃ slot, m.slotAt hash n = some slot := by
  obtain ⟨k, hcap, hmask⟩ := h.mask_eq
  have hlt : (Cursor.after m.mask hash n).i < m.indices.length := by
    rw [h.length, hcap, hmask]
    exact Cursor.after_i_lt hash
  exact ⟨_, List.getElem?_eq_getElem hlt⟩

lemma Table.exists_empty (h : m.Table) (hlt : m.entries.length < m.capacity) :
    ∃ i, i < m.capacity ∧ m.indices[i]? = some .empty := by
  by_contra hnone
  have hall : m.used = m.indices.length := by
    rw [used, countP_eq_length]
    intro slot hslot
    obtain ⟨i, hi, rfl⟩ := getElem_of_mem hslot
    rw [decide_eq_true_eq]
    intro hempty
    refine hnone ⟨i, h.length ▸ hi, ?_⟩
    rw [List.getElem?_eq_getElem hi, hempty]
  have hle := h.used_le
  rw [hall, h.length] at hle
  omega

/-! ## Updates -/

lemma table_emptied (m : CompactHashMap K V) : (m.emptied (2 ^ k)).Table where
  pow := ⟨k, rfl⟩
  length := length_replicate
  live := by
    intro i idx hi
    have := mem_of_getElem? hi
    simp [emptied] at this
  inj := by
    intro i j idx hi
    have := mem_of_getElem? hi
    simp [emptied] at this
  chain := by
    intro idx e he
    simp [emptied] at he
  used_le := by simp [used, emptied, countP_replicate]

section Set

variable {hash : Int}

lemma Unbroken.set (h : m.Unbroken hash n) (hmask : m'.mask = m.mask)
    (hind : m'.indices = m.indices.set slot new) (hnew : new ≠ .empty) : m'.Unbroken hash n := by
  intro j hj hempty
  rw [slotAt, hmask, hind, List.getElem?_set] at hempty
  split at hempty
  · split at hempty
    · cases hempty
      exact hnew rfl
    · cases hempty
  · exact h j hj hempty

lemma Chained.set (h : m.Chained hash idx) (hmask : m'.mask = m.mask)
    (hind : m'.indices = m.indices.set slot new) (hnew : new ≠ .empty)
    (hslot : m.indices[slot]? ≠ some (.entry idx)) : m'.Chained hash idx := by
  obtain ⟨n, hn, hbefore⟩ := h
  refine ⟨n, ?_, hbefore.set hmask hind hnew⟩
  rw [slotAt, hmask, hind, List.getElem?_set_ne]
  · exact hn
  · intro heq
    rw [heq] at hslot
    exact hslot hn

lemma used_set_le (hind : m'.indices = m.indices.set slot new) : m'.used ≤ m.used + 1 := by
  rw [used, used, hind]
  by_cases hlt : slot < m.indices.length
  · rw [List.countP_set hlt]
    split <;> split <;> omega
  · rw [set_eq_of_length_le (by omega)]
    omega

end Set

lemma Table.put (h : m.Table) {e : Entry K V} (hactive : e.isActive = true)
    (hopen : m.Opening e.hash slot) (hcap : m'.capacity = m.capacity)
    (hind : m'.indices = m.indices.set slot (.entry m.entries.length))
    (hent : m'.entries = m.entries ++ [e]) : m'.Table := by
  have hmask : m'.mask = m.mask := by rw [mask, mask, hcap]
  have hlt : slot < m.indices.length := by
    rcases hopen.1 with hs | hs <;> exact (List.getElem?_eq_some_iff.mp hs).1
  have hfree : ∀ idx, m.indices[slot]? ≠ some (.entry idx) := by
    intro idx hs
    rcases hopen.1 with hs' | hs' <;> rw [hs'] at hs <;> cases hs
  -- a slot of the new array is the written one, or an old one
  have hslots : ∀ {i idx : Nat}, m'.indices[i]? = some (.entry idx) →
      i = slot ∧ idx = m.entries.length ∨ m.indices[i]? = some (.entry idx) ∧
        idx < m.entries.length := by
    intro i idx hi
    rw [hind, List.getElem?_set] at hi
    by_cases heq : slot = i
    · rw [if_pos heq, if_pos hlt] at hi
      cases hi
      exact Or.inl ⟨heq.symm, rfl⟩
    · rw [if_neg heq] at hi
      obtain ⟨e', he', -⟩ := h.live hi
      exact Or.inr ⟨hi, (List.getElem?_eq_some_iff.mp he').1⟩
  refine ⟨hcap ▸ h.pow, ?_, ?_, ?_, ?_, ?_⟩
  · rw [hind, length_set, h.length, hcap]
  · intro i idx hi
    rw [hent]
    rcases hslots hi with ⟨-, rfl⟩ | ⟨hi, hidx⟩
    · exact ⟨e, by simp, hactive⟩
    · obtain ⟨e', he', hact'⟩ := h.live hi
      exact ⟨e', by rw [List.getElem?_append_left hidx]; exact he', hact'⟩
  · intro i j idx hi hj
    rcases hslots hi with ⟨rfl, rfl⟩ | ⟨hi, hidx⟩
    · rcases hslots hj with ⟨rfl, -⟩ | ⟨-, hlt'⟩
      · rfl
      · omega
    · rcases hslots hj with ⟨-, rfl⟩ | ⟨hj, -⟩
      · omega
      · exact h.inj hi hj
  · intro idx e' he' hact'
    rw [hent] at he'
    by_cases hidx : idx < m.entries.length
    · rw [List.getElem?_append_left hidx] at he'
      exact (h.chain he' hact').set hmask hind (by simp) (hfree idx)
    · rw [List.getElem?_append_right (by omega)] at he'
      obtain ⟨hzero, rfl⟩ : idx - m.entries.length = 0 ∧ e = e' := by
        simpa [List.getElem?_singleton] using he'
      obtain ⟨n, hn, hbefore⟩ := hopen.2
      refine ⟨n, ?_, hbefore.set hmask hind (by simp)⟩
      rw [slotAt, hmask, hn, hind, List.getElem?_set_self hlt]
      congr
      omega
  · have hused := used_set_le hind
    have hle := h.used_le
    rw [hent, length_append]
    simp only [length_cons, length_nil]
    omega

lemma Table.remove (h : m.Table) (hslot : m.indices[slot]? = some (.entry idx)) :
    (m.remove slot idx).Table := by
  have hlt : slot < m.indices.length := (List.getElem?_eq_some_iff.mp hslot).1
  have hother : ∀ {i idx' : Nat}, (m.remove slot idx).indices[i]? = some (.entry idx') →
      m.indices[i]? = some (.entry idx') ∧ idx ≠ idx' := by
    intro i idx' hi
    rw [CompactHashMap.remove, List.getElem?_set] at hi
    by_cases heq : slot = i
    · rw [if_pos heq, if_pos hlt] at hi
      cases hi
    · rw [if_neg heq] at hi
      refine ⟨hi, ?_⟩
      rintro rfl
      exact heq (h.inj hslot hi)
  refine ⟨h.pow, ?_, ?_, ?_, ?_, ?_⟩
  · rw [CompactHashMap.remove, length_set]
    exact h.length
  · intro i idx' hi
    obtain ⟨hi, hne⟩ := hother hi
    obtain ⟨e, he, hact⟩ := h.live hi
    exact ⟨e, by rw [CompactHashMap.remove, List.getElem?_modify, he]; simp [hne], hact⟩
  · intro i j idx' hi hj
    exact h.inj (hother hi).1 (hother hj).1
  · intro idx' e he hact
    rw [CompactHashMap.remove, List.getElem?_modify] at he
    by_cases heq : idx = idx'
    · -- the entry itself is not active any more
      simp only [heq, if_true, Option.map_eq_map, Option.map_eq_some_iff] at he
      obtain ⟨e', -, rfl⟩ := he
      cases hact
    · simp only [heq, if_false, Option.map_eq_map, Option.map_id'] at he
      refine (h.chain he hact).set rfl rfl (by simp) ?_
      rw [hslot]
      intro hs
      cases hs
      exact heq rfl
  · have hcount : (m.remove slot idx).used = m.used := by
      rw [used, used, CompactHashMap.remove, List.countP_set hlt]
      have hget : m.indices[slot] = .entry idx := (List.getElem?_eq_some_iff.mp hslot).2
      have hpos : 0 < m.indices.countP (· ≠ .empty) :=
        countP_pos_iff.mpr ⟨_, mem_of_getElem? hslot, by simp⟩
      rw [if_pos (by simp [hget]), if_pos (by simp)]
      omega
    rw [hcount]
    simp only [CompactHashMap.remove, length_modify]
    exact h.used_le

lemma Table.setValue (h : m.Table) (idx : Nat) (value : V) : (m.setValue idx value).Table := by
  refine ⟨h.pow, h.length, ?_, h.inj, ?_, ?_⟩
  · intro i idx' hi
    obtain ⟨e, he, hact⟩ := h.live hi
    rw [CompactHashMap.setValue, List.getElem?_modify, he]
    exact ⟨_, rfl, by dsimp only; split <;> exact hact⟩
  · intro idx' e he hact
    rw [CompactHashMap.setValue, List.getElem?_modify] at he
    simp only [Option.map_eq_map, Option.map_eq_some_iff] at he
    obtain ⟨e', he', rfl⟩ := he
    have hchain : m.Chained e'.hash idx' :=
      h.chain he' (by split at hact <;> exact hact)
    split <;> exact hchain
  · simp only [CompactHashMap.setValue, length_modify]
    exact h.used_le

end CompactHashMap

end CleanArch
