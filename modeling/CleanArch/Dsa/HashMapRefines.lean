import CleanArch.Assoc.Ordered
import CleanArch.Dsa.ProbeTermination

/-!
# The hash map is an association list

`specCall` is what a client sees: an association list in insertion order. The map of a client with
lawful keys stands for the list of its active entries (`Refines`), and every call keeps this and
returns what the list returns (`Refines.of_call`).
-/

namespace CleanArch

open Assoc List Loops

namespace CompactHashMap

variable {K V : Type} [BEq K] {hash : K → Int} {m m' : CompactHashMap K V}

/-! ## The reference -/

def specCall : MapOp K V → List (K × V) → Except (MapError K) (MapOut K V) × List (K × V)
  | .setitem key value, l => (.ok .none, set l key value)
  | .getitem key, l =>
    match find l key with
    | some value => (.ok (.value value), l)
    | none => (.error (.keyError key), l)
  | .getDefault key default, l => (.ok (.optional ((find l key).or default)), l)
  | .contains key, l => (.ok (.bool (l.any fun p => p.1 == key)), l)
  | .delete key, l => (.ok (.bool (l.any fun p => p.1 == key)), erase l key)
  | .delitem key, l =>
    (if l.any fun p => p.1 == key then .ok .none else .error (.keyError key), erase l key)
  | .clear, _ => (.ok .none, [])
  | .len, l => (.ok (.int l.length), l)
  | .keys, l => (.ok (.keys (l.map (·.1))), l)
  | .values, l => (.ok (.values (l.map (·.2))), l)
  | .items, l => (.ok (.items l), l)

def specRun : List (MapOp K V) → List (K × V) → List (Except (MapError K) (MapOut K V))
  | [], _ => []
  | op :: ops, l => (specCall op l).1 :: specRun ops (specCall op l).2

/-! ## The relation -/

def pairs (m : CompactHashMap K V) : List (K × V) := m.active.map fun e => (e.key, e.value)

structure Refines (hash : K → Int) (m : CompactHashMap K V) : Prop where
  sound : m.Sound
  hashed : Hashed hash m
  distinct : Distinct m.pairs
  size : m.size = m.pairs.length

section Pairs

omit [BEq K] in
lemma mem_pairs {p : K × V} :
    p ∈ m.pairs ↔ ∃ e ∈ m.entries, e.isActive = true ∧ (e.key, e.value) = p := by
  simp only [pairs, active, mem_map, mem_filter, and_assoc]

lemma mem_pairs_of_matches (hentry : e ∈ m.entries) (h : Matches key (hash key) e) :
    (e.key, e.value) ∈ m.pairs :=
  mem_pairs.mpr ⟨e, hentry, h.1, rfl⟩

lemma absent_of_miss (hcons : ∀ a b, (a == b) = true → hash a = hash b) (h : Hashed hash m)
    (hnone : ∀ e ∈ m.entries, ¬ Matches key (hash key) e) :
    ∀ p ∈ m.pairs, (p.1 == key) = false := by
  intro p hp
  obtain ⟨e, he, hactive, rfl⟩ := mem_pairs.mp hp
  cases hkey : e.key == key with
  | false => rfl
  | true =>
    exact absurd ⟨hactive, (h e he).trans (hcons _ _ hkey), hkey⟩ (hnone e he)

lemma any_of_matches (hentry : e ∈ m.entries) (h : Matches key (hash key) e) :
    (m.pairs.any fun p => p.1 == key) = true :=
  any_eq_true.mpr ⟨_, mem_pairs_of_matches hentry h, h.2.2⟩

lemma any_of_absent (h : ∀ p ∈ m.pairs, (p.1 == key) = false) :
    (m.pairs.any fun p => p.1 == key) = false := by
  rw [any_eq_false]
  intro p hp
  rw [h p hp]
  decide

variable [EquivBEq K]

lemma Refines.find_of_matches (h : Refines hash m) (hentry : e ∈ m.entries)
    (hmatch : Matches key (hash key) e) : find m.pairs key = some e.value :=
  h.distinct.find_of_mem (mem_pairs_of_matches hentry hmatch) hmatch.2.2

lemma Refines.index_eq (h : Refines hash m) {i idx : Nat} {a : Entry K V}
    (hentry : m.entries[idx]? = some e) (hmatch : Matches key (hash key) e)
    (ha : m.entries[i]? = some a) : (a.isActive && a.key == key) = true ↔ i = idx := by
  constructor
  · intro hboth
    obtain ⟨hactive, hkey⟩ := Bool.and_eq_true_iff.mp hboth
    have hpair : m.entries.Pairwise fun a b =>
        a.isActive = true → b.isActive = true → (a.key == b.key) = false := by
      have := h.distinct
      rw [Distinct, pairs, pairwise_map, active, pairwise_filter] at this
      exact this
    rw [List.pairwise_iff_getElem] at hpair
    obtain ⟨hi, rfl⟩ := List.getElem?_eq_some_iff.mp ha
    obtain ⟨hidx, rfl⟩ := List.getElem?_eq_some_iff.mp hentry
    have heq : (m.entries[i].key == m.entries[idx].key) = true :=
      BEq.trans hkey (BEq.symm hmatch.2.2)
    rcases Nat.lt_trichotomy i idx with hlt | heq' | hlt
    · have := hpair i idx hi hidx hlt hactive hmatch.1
      rw [heq] at this
      cases this
    · exact heq'
    · have := hpair idx i hidx hi hlt hmatch.1 hactive
      rw [BEq.symm heq] at this
      cases this
  · rintro rfl
    rw [hentry] at ha
    cases ha
    rw [hmatch.1, hmatch.2.2]
    rfl

lemma Refines.modify_eq (h : Refines hash m) (hentry : m.entries[idx]? = some e)
    (hmatch : Matches key (hash key) e) : m.entries.modify idx f =
      m.entries.map fun a => if a.isActive && a.key == key then f a else a := by
  refine ext_getElem? fun i => ?_
  rw [List.getElem?_modify, List.getElem?_map]
  cases ha : m.entries[i]? with
  | none => rfl
  | some =>
    have hiff := h.index_eq hentry hmatch ha
    by_cases hi : i = idx
    · have hboth := hiff.mpr hi
      simp only [hi, hboth, if_true, Option.map_eq_map, Option.map_some]
    · have hne : ¬ idx = i := fun heq => hi heq.symm
      have hboth := mt hiff.mp hi
      simp only [hne, hboth, if_false, Bool.false_eq_true, Option.map_eq_map, Option.map_some]

end Pairs

/-! ## Updates -/

lemma Refines.noted (h : Refines hash m) (p : Probe) : Refines hash (m.noted p) :=
  ⟨h.sound.noted p, h.hashed, h.distinct, h.size⟩

section Updates

variable [EquivBEq K]

lemma Refines.pairs_setValue (h : Refines hash m) (hentry : m.entries[idx]? = some e)
    (hmatch : Matches key (hash key) e) (value : V) :
    (m.setValue idx value).pairs = set m.pairs key value := by
  rw [set_of_mem (mem_pairs_of_matches (mem_of_getElem? hentry) hmatch) hmatch.2.2]
  simp only [pairs, active, setValue]
  rw [h.modify_eq hentry hmatch]
  generalize m.entries = es
  induction es with
  | nil => rfl
  | cons a es ih =>
    cases hactive : a.isActive <;> cases hkey : a.key == key <;>
      simp [hactive, hkey] at ih ⊢ <;> exact ih

lemma Refines.pairs_remove (h : Refines hash m) (hentry : m.entries[idx]? = some e)
    (hmatch : Matches key (hash key) e) :
    (m.remove slot idx).pairs = erase m.pairs key := by
  simp only [pairs, active, remove, erase]
  rw [h.modify_eq hentry hmatch]
  generalize m.entries = es
  induction es with
  | nil => rfl
  | cons a es ih =>
    cases hactive : a.isActive <;> cases hkey : a.key == key <;>
      simp [hactive, hkey] at ih ⊢ <;> exact ih

variable (hcons : ∀ a b : K, (a == b) = true → hash a = hash b)

include hcons in
lemma Refines.of_set (h : Refines hash m) (hpost : m.SetPost hash key value m') :
    Refines hash m' ∧ m'.pairs = set m.pairs key value := by
  have hchange : Change hash m m' := .set hpost
  have hpairs : m'.pairs = set m.pairs key value ∧ m'.size = m'.pairs.length := by
    cases hpost with
    | updated p hentry hmatch =>
      have hpairs := (h.noted p).pairs_setValue hentry hmatch value
      refine ⟨hpairs, ?_⟩
      have hmem : _ ∈ (m.noted p).pairs :=
        mem_pairs_of_matches (mem_of_getElem? hentry) hmatch
      rw [hpairs, length_set_of_mem hmem hmatch.2.2]
      exact h.size
    | @inserted m1 slot hnone htable hload hactive hmem hsize =>
      have hpairs : (m1.append slot { hash := hash key, key, value }).pairs =
          m.pairs ++ [(key, value)] := by
        simp only [pairs, ← hactive]
        simp [active, append]
      rw [hpairs, set_of_absent (absent_of_miss hcons h.hashed hnone)]
      refine ⟨rfl, ?_⟩
      rw [append, hsize, h.size, length_append]
      rfl
  refine ⟨⟨hchange.sound h.sound, hchange.hashed h.hashed, ?_, hpairs.2⟩, hpairs.1⟩
  rw [hpairs.1]
  exact h.distinct.after_set key

include hcons in
lemma Refines.of_delete (h : Refines hash m) {b : Bool} (hpost : m.DeletePost hash key b m') :
    Refines hash m' ∧ m'.pairs = erase m.pairs key ∧ (m.pairs.any fun p => p.1 == key) = b := by
  have hchange : Change hash m m' := .deleted hpost
  cases hpost with
  | @removed slot idx e p hslot hentry hmatch =>
    have hpairs : ((m.noted p).remove slot idx).pairs = erase m.pairs key :=
      (h.noted p).pairs_remove hentry hmatch
    have hmem := mem_of_getElem? hentry
    refine ⟨⟨hchange.sound h.sound, hchange.hashed h.hashed, ?_, ?_⟩, hpairs,
      any_of_matches hmem hmatch⟩
    · rw [hpairs]
      exact h.distinct.after_erase
    · have hlen := h.distinct.length_erase (mem_pairs_of_matches hmem hmatch) hmatch.2.2
      have hsize := h.size
      rw [hpairs]
      change m.size - 1 = _
      omega
  | absent p hnone =>
    have habsent := absent_of_miss hcons h.hashed hnone
    refine ⟨h.noted p, ?_, any_of_absent habsent⟩
    rw [erase_of_absent habsent]
    rfl

omit [EquivBEq K] in
lemma refines_no_entries (hm : m.Sound) (hentries : m.entries = []) (hsize : m.size = 0) :
    Refines hash m := by
  have hpairs : m.pairs = [] := by rw [pairs, active, hentries]; rfl
  refine ⟨hm, ?_, ?_, ?_⟩
  · intro e he
    rw [hentries] at he
    cases he
  · rw [hpairs]
    exact List.Pairwise.nil
  · rw [hpairs, hsize]
    rfl

include hcons in
lemma Refines.of_call (h : Refines hash m) {fuel : Nat} {op : MapOp K V}
    {r : Except (MapError K) (MapOut K V)}
    (hexec : exec (call hash fuel op) m = some (r, m')) :
    Refines hash m' ∧ specCall op m.pairs = (r, m'.pairs) := by
  cases op with
  | setitem =>
    obtain ⟨_, hexec, rfl⟩ := exec_map_some hexec
    obtain ⟨rfl, hpost⟩ := h.sound.setitem_exec hexec
    obtain ⟨hrefines, hpairs⟩ := h.of_set hcons hpost
    exact ⟨hrefines, by rw [hpairs]; rfl⟩
  | getitem =>
    obtain ⟨_, hexec, rfl⟩ := exec_map_some hexec
    obtain ⟨p, rfl, ⟨e, he, hmatch, rfl⟩ | ⟨hnone, rfl⟩⟩ := h.sound.table.getitem_exec hexec
    · refine ⟨h.noted p, ?_⟩
      rw [specCall, h.find_of_matches he hmatch]
      rfl
    · refine ⟨h.noted p, ?_⟩
      rw [specCall, find_none (absent_of_miss hcons h.hashed hnone)]
      rfl
  | getDefault =>
    obtain ⟨_, hexec, rfl⟩ := exec_map_some hexec
    obtain ⟨p, rfl, ⟨e, he, hmatch, rfl⟩ | ⟨hnone, rfl⟩⟩ := h.sound.table.getDefault_exec hexec
    · refine ⟨h.noted p, ?_⟩
      rw [specCall, h.find_of_matches he hmatch]
      rfl
    · refine ⟨h.noted p, ?_⟩
      rw [specCall, find_none (absent_of_miss hcons h.hashed hnone)]
      rfl
  | contains =>
    obtain ⟨_, hexec, rfl⟩ := exec_map_some hexec
    obtain ⟨p, rfl, ⟨⟨e, he, hmatch⟩, rfl⟩ | ⟨hnone, rfl⟩⟩ := h.sound.table.contains_exec hexec
    · refine ⟨h.noted p, ?_⟩
      rw [specCall, any_of_matches he hmatch]
      rfl
    · refine ⟨h.noted p, ?_⟩
      rw [specCall, any_of_absent (absent_of_miss hcons h.hashed hnone)]
      rfl
  | delete =>
    obtain ⟨_, hexec, rfl⟩ := exec_map_some hexec
    obtain ⟨b, rfl, hpost⟩ := h.sound.table.delete_exec hexec
    obtain ⟨hrefines, hpairs, hany⟩ := h.of_delete hcons hpost
    exact ⟨hrefines, by rw [specCall, hpairs, hany]; rfl⟩
  | delitem =>
    obtain ⟨_, hexec, rfl⟩ := exec_map_some hexec
    obtain ⟨b, hpost, rfl⟩ := h.sound.table.delitem_exec hexec
    obtain ⟨hrefines, hpairs, hany⟩ := h.of_delete hcons hpost
    refine ⟨hrefines, ?_⟩
    rw [specCall, hpairs, hany]
    cases b with
    | true | false => rfl
  | clear =>
    cases hexec
    exact ⟨refines_no_entries sound_cleared rfl rfl, rfl⟩
  | len =>
    cases hexec
    refine ⟨h, ?_⟩
    rw [specCall, ← h.size]
  | keys | values =>
    cases hexec
    refine ⟨h, ?_⟩
    rw [specCall, pairs, map_map]
    rfl
  | items =>
    cases hexec
    exact ⟨h, rfl⟩

end Updates

/-! ## Runs -/

section Runs

variable [EquivBEq K]

omit [EquivBEq K] in
lemma exists_init : ∃ (m : CompactHashMap K V) (bound : Nat), Refines hash m ∧ m.pairs = [] ∧
      ∀ fuel, bound ≤ fuel → init fuel initialCapacity = some m := by
  -- the distance to the wanted capacity gets smaller
  have hround : ∀ capacity capacity' : Nat, 0 < capacity →
      capacityRound initialCapacity capacity = .again capacity' →
      0 < capacity' ∧ (initialCapacity - capacity').toNat < (initialCapacity - capacity).toNat := by
    intro capacity capacity' hpos hround
    rw [capacityRound] at hround
    split at hround
    · cases hround
      omega
    · cases hround
  obtain ⟨capacity, hloop⟩ :=
    loop_of_measure (I := fun capacity : Nat => 0 < capacity)
      (fun capacity => (initialCapacity - capacity).toNat) hround
      (show 0 < initialCapacityDefault by decide) (Nat.lt_succ_self _)
  have hinit : ∀ fuel, (initialCapacity - initialCapacityDefault).toNat + 1 ≤ fuel →
      init fuel initialCapacity = some
        { capacity, indices := List.replicate capacity .empty, entries := ([] : List (Entry K V)),
          size := 0, collisionCount := 0, maxProbeDepth := 0 } := by
    intro fuel hfuel
    rw [init, loop_mono hfuel hloop]
    rfl
  exact ⟨_, _, refines_no_entries (sound_init (hinit _ (Nat.le_refl _))) rfl rfl, rfl, hinit⟩

lemma Refines.exists_run (hcons : ∀ a b : K, (a == b) = true → hash a = hash b)
    (hhash : ∀ key, 0 ≤ hash key) (h : Refines hash m) (ops : List (MapOp K V)) :
    ∃ bound, ∀ fuel, bound ≤ fuel →
      ∃ m', runOps hash fuel ops m = some (specRun ops m.pairs, m') := by
  induction ops generalizing m with
  | nil => exact ⟨0, fun fuel _ => ⟨m, rfl⟩⟩
  | cons op ops ih =>
    obtain ⟨n, ⟨r, m1⟩, hexec⟩ := (h.sound.exists_exec_call_iff).mpr
      (h.sound.callMeets_of_nonneg h.hashed hhash op)
    obtain ⟨hrefines, hspec⟩ := h.of_call hcons hexec
    obtain ⟨bound, hrest⟩ := ih hrefines
    refine ⟨max n bound, fun fuel hfuel => ?_⟩
    obtain ⟨m', hrun⟩ := hrest fuel (by omega)
    refine ⟨m', ?_⟩
    rw [runOps, (mono_call).exec_of_le (by omega) hexec, specRun, hspec]
    simp only [Option.bind_eq_bind, Option.bind_some, hrun]
    rfl

/-- With lawful keys and hashes that are not negative, every client of a new map gets all its
results, and they are those of an association list. -/
theorem hashMap_refines_assoc (hcons : ∀ a b : K, (a == b) = true → hash a = hash b)
    (hhash : ∀ key, 0 ≤ hash key) (initialCapacity : Int) (ops : List (MapOp K V)) :
    ∃ bound, ∀ fuel, bound ≤ fuel →
      ∃ m m' : CompactHashMap K V, init fuel initialCapacity = some m ∧
        runOps hash fuel ops m = some (specRun ops [], m') := by
  obtain ⟨m, n, hrefines, hpairs, hinit⟩ :
      ∃ (m : CompactHashMap K V) (bound : Nat), Refines hash m ∧ m.pairs = [] ∧
        ∀ fuel, bound ≤ fuel → init fuel initialCapacity = some m := exists_init
  obtain ⟨bound, hrun⟩ := hrefines.exists_run hcons hhash ops
  refine ⟨max n bound, fun fuel hfuel => ?_⟩
  obtain ⟨m', hops⟩ := hrun fuel (by omega)
  rw [hpairs] at hops
  exact ⟨m, m', hinit fuel (by omega), hops⟩

/-- Keys that are numbers, with hashes that collide. -/
theorem hashMap_refines_assoc_mod :
    (∀ a b : Nat, (a == b) = true → ((a % 3 : Nat) : Int) = ((b % 3 : Nat) : Int)) ∧
      (∀ key : Nat, 0 ≤ ((key % 3 : Nat) : Int)) ∧
      ∃ bound, ∀ fuel, bound ≤ fuel → ∃ m m' : CompactHashMap Nat Nat, init fuel 20 = some m ∧
          runOps (fun key : Nat => ((key % 3 : Nat) : Int)) fuel
            [.setitem 0 1, .setitem 3 2, .delete 0, .setitem 3 4, .setitem 0 5, .items] m =
            some ([.ok .none, .ok .none, .ok (.bool true), .ok .none, .ok .none,
              .ok (.items [(3, 4), (0, 5)])], m') := by
  have hcons : ∀ a b : Nat, (a == b) = true → ((a % 3 : Nat) : Int) = ((b % 3 : Nat) : Int) := by
    intro a b hab
    rw [beq_iff_eq.mp hab]
  have hhash : ∀ key : Nat, 0 ≤ ((key % 3 : Nat) : Int) := fun key => Int.natCast_nonneg _
  exact ⟨hcons, hhash, hashMap_refines_assoc hcons hhash 20 _⟩

end Runs

end CompactHashMap
end CleanArch
