import CleanArch.Dsa.HashMapCalls

/-!
# Which calls of the hash map return

A call returns when each of its probing loops does. With hashes that are not negative every slot is
visited, and one is `EMPTY`. With a negative hash the perturbation stays at `-1`, and the probe then
visits only a part of the slots.
-/

namespace CleanArch

open Loops

namespace CompactHashMap

variable {K V : Type} [BEq K] {hash : K → Int} {m m' : CompactHashMap K V}

/-! ## When a call returns -/

/-- A probe with `hash` visits a slot with `stop`. -/
def Visits (m : CompactHashMap K V) (hash : Int) (stop : Nat → Bool) : Prop :=
  ∃ n, stop (Cursor.after m.mask hash n).i = true

/-- `P` holds of each probing loop of `__setitem__`: of the lookup and, when it has to resize, of
each re-index and of the second lookup. `P` takes the table, the hash, and the slots that stop the
loop. -/
def SetMeets (P : CompactHashMap K V → Int → (Nat → Bool) → Prop) (hash : K → Int)
    (m : CompactHashMap K V) (key : K) : Prop :=
  P m (hash key) (m.holdsAt key (hash key)) ∧
    ∀ fuel found m1, exec (lookup fuel key (hash key)) m = some (.ok found, m1) →
      found.entryIndex = none → m1.isFull = true →
      (∀ t e, ReindexStarts (m1.emptied (m1.capacity * 2)) m1.entries t e →
        P t e.hash t.emptyAt) ∧
      ∀ fuel m2, exec (resize fuel (m1.capacity * 2)) m1 = some (.ok (), m2) →
        P m2 (hash key) (m2.holdsAt key (hash key))

/-- `P` holds of each probing loop of a call. -/
def CallMeets (P : CompactHashMap K V → Int → (Nat → Bool) → Prop) (hash : K → Int)
    (m : CompactHashMap K V) : MapOp K V → Prop
  | .setitem key _ => SetMeets P hash m key
  | .getitem key => P m (hash key) (m.holdsAt key (hash key))
  | .getDefault key _ => P m (hash key) (m.holdsAt key (hash key))
  | .contains key => P m (hash key) (m.holdsAt key (hash key))
  | .delete key => P m (hash key) (m.holdsAt key (hash key))
  | .delitem key => P m (hash key) (m.holdsAt key (hash key))
  | .clear => True
  | .len => True
  | .keys => True
  | .values => True
  | .items => True

omit [BEq K] in
lemma Sound.exists_exec_resize_iff (h : m.Sound) :
    (∃ fuel r, exec (resize fuel (m.capacity * 2)) m = some r) ↔
      ∀ t e, ReindexStarts (m.emptied (m.capacity * 2)) m.entries t e →
        Visits t e.hash t.emptyAt := by
  obtain ⟨k, hk⟩ := h.pow_two
  simp only [exec_resize, hk]
  exact (table_emptied m).exists_exec_forM_iff

lemma Sound.setMeets_of_exec (h : m.Sound) {key : K} {value : V}
    {r : Except (MapError K) Unit × CompactHashMap K V}
    (hexec : exec (setitem hash fuel key value) m = some r) : SetMeets Visits hash m key := by
  obtain ⟨found, p, hlookup, hpost, hrest⟩ := h.table.exec_lookup_bind hexec
  refine ⟨(h.table.exists_exec_lookup_iff _ _).mp ⟨fuel, _, hlookup⟩, ?_⟩
  intro fuel' found' m1 hlookup' hnone hfull
  cases (mono_lookup key (hash key)).agree hlookup hlookup'
  have hsound := h.noted p
  simp only [hnone] at hrest
  rw [exec_bind_ok (exec_getThe _), if_pos hfull, exec_bind_ok (exec_getThe _)] at hrest
  rcases exec_bind_some hrest with ⟨_, m2, hresize, hrest⟩ | ⟨_, _, hresize, -⟩
  · refine ⟨hsound.exists_exec_resize_iff.mp ⟨fuel, _, hresize⟩, ?_⟩
    intro fuel'' m₂' hresize'
    cases (mono_resize).agree hresize hresize'
    obtain ⟨-, hrebuilt⟩ := hsound.resize_exec hresize
    obtain ⟨_, _, hlookup2, -⟩ := hrebuilt.table.exec_lookup_bind hrest
    exact (hrebuilt.table.exists_exec_lookup_iff _ _).mp ⟨fuel, _, hlookup2⟩
  · obtain ⟨heq, -⟩ := hsound.resize_exec hresize
    cases heq

lemma Sound.exists_exec_setitem (h : m.Sound) {key : K} (hmeets : SetMeets Visits hash m key) :
    ∃ fuel r, exec (setitem hash fuel key value) m = some r := by
  obtain ⟨hfirst, hrest⟩ := hmeets
  obtain ⟨fuel, ⟨r, m1⟩, hlookup⟩ := (h.table.exists_exec_lookup_iff _ _).mpr hfirst
  obtain ⟨found, p, rfl, rfl, hpost⟩ := h.table.lookup_exec hlookup
  have hsound := h.noted p
  cases hentry : found.entryIndex with
  | some idx =>
    refine ⟨fuel, (.ok (), (m.noted p).setValue idx value), ?_⟩
    rw [setitem, exec_bind_ok hlookup, hentry]
    rfl
  | none =>
    by_cases hfull : (m.noted p).isFull = true
    · obtain ⟨hreindex, hlast⟩ := hrest fuel found _ hlookup hentry hfull
      obtain ⟨fuel1, ⟨r, m2⟩, hresize⟩ := hsound.exists_exec_resize_iff.mpr hreindex
      obtain ⟨rfl, hrebuilt⟩ := hsound.resize_exec hresize
      obtain ⟨fuel2, ⟨r, m3⟩, hlookup2⟩ :=
        (hrebuilt.table.exists_exec_lookup_iff _ _).mpr (hlast fuel1 m2 hresize)
      obtain ⟨found2, p2, rfl, rfl, -⟩ := hrebuilt.table.lookup_exec hlookup2
      -- enough rounds for the three of them
      have hle : fuel ≤ max fuel (max fuel1 fuel2) := by omega
      have hle1 : fuel1 ≤ max fuel (max fuel1 fuel2) := by omega
      have hle2 : fuel2 ≤ max fuel (max fuel1 fuel2) := by omega
      refine ⟨max fuel (max fuel1 fuel2), (.ok (),
        (m2.noted p2).append found2.slotIndex { hash := hash key, key, value }), ?_⟩
      rw [setitem, exec_bind_ok ((mono_lookup _ _).exec_of_le hle hlookup), hentry]
      rw [exec_bind_ok (exec_getThe _), if_pos hfull, exec_bind_ok (exec_getThe _),
        exec_bind_ok ((mono_resize).exec_of_le hle1 hresize),
        exec_bind_ok ((mono_lookup _ _).exec_of_le hle2 hlookup2)]
      rfl
    · refine ⟨fuel, (.ok (),
        (m.noted p).append found.slotIndex { hash := hash key, key, value }), ?_⟩
      rw [setitem, exec_bind_ok hlookup, hentry]
      rw [exec_bind_ok (exec_getThe _), if_neg hfull]
      rfl

lemma exists_exec_getitem_iff : (∃ r, exec (getitem hash fuel key) m = some r) ↔
      ∃ r, exec (lookup fuel key (hash key)) m = some r := by
  refine exists_exec_bind_iff fun found m1 => ?_
  cases found.entryIndex with
  | none => exact ⟨_, rfl⟩
  | some idx =>
    rw [exec_bind_ok (exec_getThe m1)]
    cases m1.entries[idx]? with
    | none | some => exact ⟨_, rfl⟩

lemma exists_exec_delete_iff : (∃ r, exec (delete hash fuel key) m = some r) ↔
      ∃ r, exec (lookup fuel key (hash key)) m = some r := by
  refine exists_exec_bind_iff fun found m1 => ?_
  cases found.entryIndex with
  | none | some => exact ⟨_, rfl⟩

lemma Sound.exists_exec_call_iff (h : m.Sound) :
    (∃ fuel r, exec (call hash fuel op) m = some r) ↔ CallMeets Visits hash m op := by
  -- what follows the method of a call always returns
  have hpure : ∀ {α : Type} (x : Nat → MapM K V α) (f : α → MapOut K V),
      (∃ fuel r, exec (x fuel >>= fun a => pure (f a)) m = some r) ↔
        ∃ fuel r, exec (x fuel) m = some r :=
    fun x f => exists_congr fun fuel => exists_exec_bind_iff fun _ _ => ⟨_, rfl⟩
  cases op with
  | setitem key value =>
    refine (hpure (fun fuel => setitem hash fuel key value) fun _ => .none).trans ?_
    constructor
    · rintro ⟨fuel, r, hexec⟩
      exact h.setMeets_of_exec hexec
    · exact h.exists_exec_setitem
  | getitem key =>
    refine (hpure (fun fuel => getitem hash fuel key) .value).trans ?_
    exact (exists_congr fun fuel => exists_exec_getitem_iff).trans
      (h.table.exists_exec_lookup_iff key (hash key))
  | getDefault key default =>
    refine (hpure (fun fuel => getDefault hash fuel key default) .optional).trans ?_
    refine Iff.trans (exists_congr fun fuel => ?_) (h.table.exists_exec_lookup_iff key (hash key))
    refine Iff.trans (exists_exec_tryCatch_iff ?_)
      ((exists_exec_bind_iff fun _ _ => ⟨_, rfl⟩).trans (exists_exec_getitem_iff))
    intro e m1
    cases e with
    | keyError | indexError => exact ⟨_, rfl⟩
  | contains key =>
    refine (hpure (fun fuel => contains hash fuel key) .bool).trans ?_
    exact (exists_congr fun fuel => exists_exec_bind_iff fun _ _ => ⟨_, rfl⟩).trans
      (h.table.exists_exec_lookup_iff key (hash key))
  | delete key =>
    refine (hpure (fun fuel => delete hash fuel key) .bool).trans ?_
    exact (exists_congr fun fuel => exists_exec_delete_iff).trans
      (h.table.exists_exec_lookup_iff key (hash key))
  | delitem key =>
    refine (hpure (fun fuel => delitem hash fuel key) fun _ => .none).trans ?_
    refine Iff.trans (exists_congr fun fuel => ?_) (h.table.exists_exec_lookup_iff key (hash key))
    refine Iff.trans (exists_exec_bind_iff ?_) (exists_exec_delete_iff)
    intro b m1
    cases b with
    | true | false => exact ⟨_, rfl⟩
  | clear | len | keys | values | items => exact iff_of_true ⟨0, _, rfl⟩ trivial

/-! ## Hashes that are not negative -/

omit [BEq K] in
lemma Table.visits_of_nonneg (h : m.Table) (hlt : m.entries.length < m.capacity)
    (hhash : 0 ≤ hashVal) (hstop : ∀ i, m.indices[i]? = some .empty → stop i = true) :
    Visits m hashVal stop := by
  obtain ⟨i, hi, hempty⟩ := h.exists_empty hlt
  obtain ⟨k, hcap, hmask⟩ := h.mask_eq
  obtain ⟨n, hn⟩ := Cursor.exists_after (hcap ▸ hi) hhash
  refine ⟨n, ?_⟩
  rw [hmask, hn]
  exact hstop i hempty

lemma Table.visits_holdsAt (h : m.Table) (hlt : m.entries.length < m.capacity)
    (hhash : ∀ key, 0 ≤ hash key) (key : K) :
    Visits m (hash key) (m.holdsAt key (hash key)) :=
  h.visits_of_nonneg hlt (hhash key) fun i hi => by simp only [holdsAt, hi]

lemma Sound.callMeets_of_nonneg (h : m.Sound) (hhashed : Hashed hash m)
    (hhash : ∀ key, 0 ≤ hash key) (op : MapOp K V) : CallMeets Visits hash m op := by
  have hlt : m.entries.length < m.capacity := by
    have := h.load
    omega
  have hlookup := h.table.visits_holdsAt hlt hhash
  cases op with
  | setitem key =>
    refine ⟨hlookup key, ?_⟩
    intro fuel found m1 hexec _ _
    obtain ⟨_, p, -, rfl, -⟩ := h.table.lookup_exec hexec
    have hsound := h.noted p
    obtain ⟨k, hk⟩ := hsound.pow_two
    refine ⟨?_, ?_⟩
    · rintro t e ⟨fuel', pre, post, hsplit, hactive, hpre⟩
      have hentries : m.entries = pre ++ e :: post := hsplit
      rw [hk] at hpre
      obtain ⟨-, hrebuilt⟩ := (table_emptied (m.noted p)).forM_reindex_exec hpre
      have hle : t.entries.length ≤ pre.length := by
        rw [hrebuilt.entries]
        simpa [emptied] using List.length_filter_le _ pre
      have hcap : t.capacity = m.capacity * 2 := by
        rw [hrebuilt.capacity]
        exact hk.symm
      have hlen : pre.length < m.entries.length := by
        rw [hentries, List.length_append, List.length_cons]
        omega
      have hmem : e ∈ m.entries := by
        rw [hentries]
        exact List.mem_append_right pre List.mem_cons_self
      refine hrebuilt.table.visits_of_nonneg (by omega) ?_ fun i hi => by simp [emptyAt, hi]
      rw [hhashed e hmem]
      exact hhash e.key
    · intro fuel' m2 hresize
      obtain ⟨-, hrebuilt⟩ := hsound.resize_exec hresize
      obtain ⟨-, -, hload⟩ := hsound.of_rebuilt hrebuilt
      exact hrebuilt.table.visits_holdsAt (by omega) hhash key
  | getitem key | getDefault key | contains key | delete key | delitem key => exact hlookup key
  | clear | len | keys | values | items => trivial

/-! ## Hashes of 64 bits -/

inductive Reachable (hash : K → Int) : CompactHashMap K V → Prop
  | init (fuel : Nat) (initialCapacity : Int) {m : CompactHashMap K V}
      (h : init fuel initialCapacity = some m) : Reachable hash m
  | call {fuel : Nat} {op : MapOp K V} {m m' : CompactHashMap K V}
      {r : Except (MapError K) (MapOut K V)} (hm : Reachable hash m)
      (h : exec (call hash fuel op) m = some (r, m')) : Reachable hash m'

omit [BEq K] in
lemma init_entries (h : init fuel initialCapacity = some m) : m.entries = [] := by
  obtain ⟨capacity, -, hm⟩ := Option.bind_eq_some_iff.mp h
  cases hm
  rfl

lemma Reachable.sound (h : Reachable hash m) : m.Sound ∧ Hashed hash m := by
  induction h with
  | init fuel initialCapacity h =>
    refine ⟨sound_init h, ?_⟩
    intro e he
    rw [init_entries h] at he
    cases he
  | call hm h ih => exact ⟨(ih.1.call_change h).sound ih.1, (ih.1.call_change h).hashed ih.2⟩

/-- `ProbeMeets`, in the table of a map. -/
def Meets (m : CompactHashMap K V) (hash : Int) (stop : Nat → Bool) : Prop :=
  ProbeMeets m.capacity hash fun i => stop i = true

instance (m : CompactHashMap K V) (hash : Int) (stop : Nat → Bool) :
    Decidable (m.Meets hash stop) :=
  inferInstanceAs (Decidable (ProbeMeets _ _ _))

omit [BEq K] in
lemma Table.visits_iff_meets (h : m.Table) (hhash : -2 ^ 63 ≤ hashVal ∧ hashVal < 2 ^ 63) :
    Visits m hashVal stop ↔ Meets m hashVal stop := by
  obtain ⟨k, hk⟩ := h.pow
  rw [Visits, Meets, mask, hk]
  exact exists_after_iff hhash fun i => stop i = true

lemma Sound.callMeets_iff (h : m.Sound) (hhashed : Hashed hash m)
    (hhash : ∀ key, -2 ^ 63 ≤ hash key ∧ hash key < 2 ^ 63) :
    CallMeets Visits hash m op ↔ CallMeets Meets hash m op := by
  have hlookup : ∀ key, Visits m (hash key) (m.holdsAt key (hash key)) ↔
      Meets m (hash key) (m.holdsAt key (hash key)) :=
    fun key => h.table.visits_iff_meets (hhash key)
  cases op with
  | setitem key =>
    refine and_congr (hlookup key) ?_
    refine forall_congr' fun fuel => forall_congr' fun found => forall_congr' fun m1 => ?_
    refine forall_congr' fun hexec => forall_congr' fun _ => forall_congr' fun _ => ?_
    obtain ⟨_, p, -, rfl, -⟩ := h.table.lookup_exec hexec
    have hsound := h.noted p
    obtain ⟨k, hk⟩ := hsound.pow_two
    refine and_congr ?_ ?_
    · refine forall_congr' fun t => forall_congr' fun e => forall_congr' fun hstarts => ?_
      rw [hk] at hstarts
      obtain ⟨htable, hmem⟩ := hstarts.table (table_emptied (m.noted p))
      refine htable.visits_iff_meets ?_
      rw [hhashed e hmem]
      exact hhash e.key
    · refine forall_congr' fun fuel' => forall_congr' fun m2 => forall_congr' fun hresize => ?_
      exact (hsound.resize_exec hresize).2.table.visits_iff_meets (hhash key)
  | getitem key | getDefault key | contains key | delete key | delitem key => exact hlookup key
  | clear | len | keys | values | items => exact Iff.rfl

/-- Which loops end, and which calls return, of a map that a client can get to. -/
theorem probe_ends_iff (hhash : ∀ key, -2 ^ 63 ≤ hash key ∧ hash key < 2 ^ 63)
    (hm : Reachable hash m) :
    (∀ key, Ends (lookupRound key (hash key) m) (m.startProbe (hash key)) ↔
      Meets m (hash key) (m.holdsAt key (hash key))) ∧
    (∀ t e, ReindexStarts (m.emptied (m.capacity * 2)) m.entries t e →
      (Ends (reindexRound (t.push e)) ((t.push e).startProbe e.hash) ↔ Meets t e.hash t.emptyAt)) ∧
    ∀ op : MapOp K V,
      (∃ fuel r, exec (call hash fuel op) m = some r) ↔ CallMeets Meets hash m op := by
  obtain ⟨hsound, hhashed⟩ := hm.sound
  refine ⟨?_, ?_, ?_⟩
  · intro key
    exact (hsound.table.lookup_ends_iff key (hash key)).trans
      (hsound.table.visits_iff_meets (hhash key))
  · intro t e hstarts
    obtain ⟨k, hk⟩ := hsound.pow_two
    rw [hk] at hstarts
    obtain ⟨htable, hmem⟩ := hstarts.table (table_emptied m)
    have hhash' : -2 ^ 63 ≤ e.hash ∧ e.hash < 2 ^ 63 := by
      rw [hhashed e hmem]
      exact hhash e.key
    exact (htable.reindex_ends_iff e.hash).trans (htable.visits_iff_meets hhash')
  · intro op
    exact (hsound.exists_exec_call_iff).trans (hsound.callMeets_iff hhashed hhash)

def threeKeys : CompactHashMap (BitVec 64) Nat where
  capacity := 8
  indices := [.entry 0, .entry 1, .empty, .empty, .empty, .entry 2, .empty, .empty]
  entries := [⟨0, 0, 10, true⟩, ⟨1, 1, 11, true⟩, ⟨5, 5, 15, true⟩]
  size := 3
  collisionCount := 0
  maxProbeDepth := 0

lemma Reachable.of_runOps (fuel : Nat) (ops : List (MapOp K V))
    (hm : Reachable hash m) (h : (runOps hash fuel ops m).map (·.2) = some m') :
    Reachable hash m' := by
  induction ops generalizing m with
  | nil =>
    cases h
    exact hm
  | cons op ops ih =>
    obtain ⟨⟨outs, m2⟩, hrun, rfl⟩ := Option.map_eq_some_iff.mp h
    obtain ⟨⟨out, m1⟩, hcall, hrest⟩ := Option.bind_eq_some_iff.mp hrun
    obtain ⟨⟨outs', m₂'⟩, hops, heq⟩ := Option.bind_eq_some_iff.mp hrest
    cases heq
    exact ih (hm.call hcall) (by rw [hops]; rfl)

lemma reachable_threeKeys : Reachable BitVec.toInt threeKeys := by
  refine Reachable.of_runOps 4 [.setitem 0 10, .setitem 1 11, .setitem 5 15] (.init 1 8 rfl) ?_
  decide +kernel

/-- With 0, 1 and 5 in the map, a lookup of 13 ends at an empty slot and one of -8 does not end. -/
theorem probe_ends_iff_threeKeys :
    (∃ fuel r, exec (call BitVec.toInt fuel (.getitem 13)) threeKeys = some r) ∧
      ¬ ∃ fuel r, exec (call BitVec.toInt fuel (.getitem (-8))) threeKeys = some r := by
  have hends := probe_ends_iff (fun key : BitVec 64 => ⟨key.le_toInt, key.toInt_lt⟩)
    reachable_threeKeys
  rw [hends.2.2, hends.2.2]
  change Meets threeKeys 13 (threeKeys.holdsAt 13 13) ∧
    ¬ Meets threeKeys (-8) (threeKeys.holdsAt (-8) (-8))
  decide +kernel

/-- With 0, 1 and 5 in the map, a lookup of -8 goes round the slots 1 and 5 for ever. -/
theorem lookup_never_returns : Reachable BitVec.toInt threeKeys ∧
      (∀ fuel, exec (call BitVec.toInt fuel (.getitem (-8))) threeKeys = none) ∧
      ∀ fuel, exec (call BitVec.toInt fuel (.setitem (-8) 0)) threeKeys = none := by
  obtain ⟨hsound, -⟩ := reachable_threeKeys.sound
  have hnot : ¬ Visits threeKeys (-8) (threeKeys.holdsAt (-8) (-8)) := by
    rw [hsound.table.visits_iff_meets (by decide)]
    decide +kernel
  have hnone : ∀ op : MapOp (BitVec 64) Nat, ¬ CallMeets Visits BitVec.toInt threeKeys op →
      ∀ fuel, exec (call BitVec.toInt fuel op) threeKeys = none := by
    intro op hmeets fuel
    cases hexec : exec (call BitVec.toInt fuel op) threeKeys with
    | none => rfl
    | some r => exact absurd ((hsound.exists_exec_call_iff).mp ⟨fuel, r, hexec⟩) hmeets
  exact ⟨reachable_threeKeys, hnone _ hnot, hnone _ fun hset => hnot hset.1⟩

end CompactHashMap
end CleanArch
