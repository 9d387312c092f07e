import CleanArch.Dsa.HashTable

/-!
# What the operations of the hash map do

One lemma for each operation, for a map with the invariant of `HashTable`: what has happened when it
returned, and when it returns. Nothing is assumed about `__eq__` or about the hashes.
-/

namespace CleanArch

open Cursor List Loops Mono

namespace CompactHashMap

variable {K V α : Type} {m m' : CompactHashMap K V} {key : K} {hashVal : Int}

/-! ## The loop of `_resize` -/

/-- Slot `i` is `EMPTY`. -/
def emptyAt (m : CompactHashMap K V) (i : Nat) : Bool := m.indices[i]? == some .empty

def ReindexInv (m : CompactHashMap K V) (hashVal : Int) (p : Probe) : Prop :=
  ∃ n, p.toCursor = after m.mask hashVal n ∧ m.Unbroken hashVal n

lemma reindexInv_start (m : CompactHashMap K V) (hashVal : Int) :
    m.ReindexInv hashVal (m.startProbe hashVal) := by
  refine ⟨0, rfl, ?_⟩
  intro j hj
  omega

variable {p : Probe}

lemma Table.reindexRound_cases (h : m.Table) (hp : p.toCursor = after m.mask hashVal n) :
    (m.indices[p.i]? = some .empty ∧ reindexRound m p = .done (p, .ok p.i)) ∨
      (m.indices[p.i]? ≠ some .empty ∧ reindexRound m p = .again (p.next m.mask)) := by
  obtain ⟨slot, hslot⟩ := h.slotAt_isSome hashVal
  rw [slotAt, ← hp] at hslot
  cases slot with
  | empty => exact Or.inl ⟨hslot, by simp only [reindexRound, hslot]⟩
  | dummy | entry => exact Or.inr ⟨by simp [hslot], by simp only [reindexRound, hslot]⟩

lemma Table.reindexInv_again (h : m.Table) (hp : m.ReindexInv hashVal p)
    (hround : reindexRound m p = .again p') :
    m.ReindexInv hashVal p' ∧ p'.toCursor = p.toCursor.next m.mask := by
  obtain ⟨n, hn, hbefore⟩ := hp
  rcases h.reindexRound_cases hn with ⟨-, hr⟩ | ⟨hslot, hr⟩
  · rw [hr] at hround
    cases hround
  · rw [hr] at hround
    cases hround
    refine ⟨⟨n + 1, by rw [after_succ, ← hn]; rfl, ?_⟩, rfl⟩
    intro j hj
    rcases Nat.lt_succ_iff_lt_or_eq.mp hj with hlt | rfl
    · exact hbefore j hlt
    · rw [slotAt, ← hn]
      exact hslot

variable {fuel : Nat}

lemma Table.reindex_loop (h : m.Table) {r : Except (MapError K) Nat}
    (hloop : loop (reindexRound m) fuel (m.startProbe hashVal) = some (p, r)) :
    ∃ slot, r = .ok slot ∧ m.Opening hashVal slot := by
  refine loop_induct (I := m.ReindexInv hashVal)
    (Q := fun b => ∃ slot, b.2 = .ok slot ∧ m.Opening hashVal slot)
    (fun p p' hp hround => (h.reindexInv_again hp hround).1) ?_ (reindexInv_start m hashVal) hloop
  rintro p b ⟨n, hn, hbefore⟩ hround
  rcases h.reindexRound_cases hn with ⟨hempty, hr⟩ | ⟨-, hr⟩
  · rw [hr] at hround
    cases hround
    exact ⟨p.i, rfl, Or.inl hempty, n, by rw [← hn], hbefore⟩
  · rw [hr] at hround
    cases hround

lemma Table.reindex_ends_iff (h : m.Table) (hashVal : Int) :
    Ends (reindexRound m) (m.startProbe hashVal) ↔
      ∃ n, m.emptyAt (after m.mask hashVal n).i = true := by
  refine ends_iff_exists_iterate (I := m.ReindexInv hashVal) Probe.toCursor
    (next m.mask) (fun c => m.emptyAt c.i = true) ?_
    (fun p p' hp hround => h.reindexInv_again hp hround) (reindexInv_start m hashVal)
  rintro p ⟨n, hn, -⟩
  rcases h.reindexRound_cases hn with ⟨hempty, hr⟩ | ⟨hslot, hr⟩
  · simp [hr, emptyAt, hempty]
  · simp [hr, emptyAt, hslot]

/-! ## Probes -/

def noted (m : CompactHashMap K V) (p : Probe) : CompactHashMap K V :=
  { m with
    collisionCount := p.collisionCount
    maxProbeDepth := max m.maxProbeDepth p.probeDepth }

lemma Table.noted (h : m.Table) (p : Probe) : (m.noted p).Table := h.congr rfl rfl rfl

section Probe

variable {round : CompactHashMap K V → Probe → Round Probe (Probe × Except (MapError K) α)}
  {Q : α → Prop}

lemma mono_probe (hashVal : Int) : Mono fun fuel => probe fuel hashVal round := by
  refine Mono.bind (const _) fun self => ?_
  exact Mono.bind (loop _ _) fun _ => const _

lemma exec_probe_ok {a : α} (h : loop (round m) fuel (m.startProbe hashVal) = some (p, .ok a)) :
    exec (probe fuel hashVal round) m = some (.ok a, m.noted p) := by
  have hlift : exec (liftM (loop (round m) fuel (m.startProbe hashVal)) : MapM K V _) m =
      some (.ok (p, .ok a), m) := by
    rw [exec_liftOption, h]
    rfl
  rw [probe, exec_bind_ok (exec_getThe m), exec_bind_ok hlift]
  rfl

lemma probe_exec {r : Except (MapError K) α}
    (hloop : ∀ {fuel p r}, loop (round m) fuel (m.startProbe hashVal) = some (p, r) →
      ∃ a, r = .ok a ∧ Q a) (h : exec (probe fuel hashVal round) m = some (r, m')) :
    Ends (round m) (m.startProbe hashVal) ∧ ∃ a p, r = .ok a ∧ m' = m.noted p ∧ Q a := by
  cases hl : loop (round m) fuel (m.startProbe hashVal) with
  | none =>
    have hlift : exec (liftM (loop (round m) fuel (m.startProbe hashVal)) : MapM K V _) m =
        none := by
      rw [exec_liftOption, hl]
      rfl
    rw [probe, exec_bind_ok (exec_getThe m), exec_bind, hlift] at h
    cases h
  | some b =>
    obtain ⟨p, r'⟩ := b
    obtain ⟨a, rfl, hQ⟩ := hloop hl
    rw [exec_probe_ok hl] at h
    cases h
    exact ⟨⟨fuel, _, hl⟩, a, p, rfl, rfl, hQ⟩

lemma exists_exec_probe (hloop : ∀ {fuel p r},
      loop (round m) fuel (m.startProbe hashVal) = some (p, r) → ∃ a, r = .ok a ∧ Q a)
    (h : Ends (round m) (m.startProbe hashVal)) :
    ∃ fuel r, exec (probe fuel hashVal round) m = some r := by
  obtain ⟨fuel, ⟨p, r⟩, hl⟩ := h
  obtain ⟨a, rfl, -⟩ := hloop hl
  exact ⟨fuel, _, exec_probe_ok hl⟩

end Probe

/-! ## `_resize` -/

/-- The entries `es` have been put into `m`. -/
structure Rebuilt (m : CompactHashMap K V) (es : List (Entry K V)) (m' : CompactHashMap K V) :
    Prop where
  table : m'.Table
  entries : m'.entries = m.entries ++ es.filter (·.isActive)
  capacity : m'.capacity = m.capacity
  size : m'.size = m.size

lemma mono_reindex (e : Entry K V) : Mono fun fuel => reindex fuel e := by
  unfold reindex
  cases e.isActive with
  | false => exact const _
  | true =>
    refine Mono.bind (const _) fun self => Mono.bind (const _) fun _ => ?_
    exact Mono.bind (mono_probe _) fun i => const _

variable {e : Entry K V}

lemma exec_reindex_inactive (fuel : Nat) (h : e.isActive = false) :
    exec (reindex fuel e) m = some (.ok (), m) := by
  rw [reindex, h]
  rfl

lemma exec_reindex_active (fuel : Nat) (h : e.isActive = true) : exec (reindex fuel e) m =
      exec (probe fuel e.hash reindexRound >>= fun i => modify fun self =>
        { self with indices := self.indices.set i (.entry m.entries.length) } : MapM K V Unit)
        (m.push e) := by
  rw [reindex, if_pos h, exec_bind_ok (exec_getThe m), exec_bind_ok (exec_modify m)]

lemma Table.reindex_loop_push (h : m.Table) (e : Entry K V) {r : Except (MapError K) Nat}
    (hloop : loop (reindexRound (m.push e)) fuel ((m.push e).startProbe hashVal) = some (p, r)) :
    ∃ slot, r = .ok slot ∧ m.Opening hashVal slot :=
  h.reindex_loop hloop

lemma Table.reindex_exec (h : m.Table) {r : Except (MapError K) Unit}
    (hexec : exec (reindex fuel e) m = some (r, m')) : r = .ok () ∧ Rebuilt m [e] m' := by
  cases hactive : e.isActive with
  | false =>
    rw [exec_reindex_inactive fuel hactive] at hexec
    cases hexec
    exact ⟨rfl, h, by simp [hactive], rfl, rfl⟩
  | true =>
    rw [exec_reindex_active fuel hactive] at hexec
    rcases exec_bind_some hexec with ⟨slot, m1, hprobe, hset⟩ | ⟨_, _, hprobe, -⟩
    · obtain ⟨-, slot', p, heq, rfl, hopen⟩ := probe_exec (h.reindex_loop_push e) hprobe
      cases heq
      cases hset
      exact ⟨rfl, h.put hactive hopen rfl rfl rfl, by simp [CompactHashMap.noted, push, hactive],
        rfl, rfl⟩
    · obtain ⟨-, _, _, heq, -⟩ := probe_exec (h.reindex_loop_push e) hprobe
      cases heq

lemma Table.exists_exec_reindex_iff (h : m.Table) (hactive : e.isActive = true) :
    (∃ fuel r, exec (reindex fuel e) m = some r) ↔
      ∃ n, m.emptyAt (after m.mask e.hash n).i = true := by
  rw [← h.reindex_ends_iff]
  simp only [exec_reindex_active _ hactive]
  constructor
  · rintro ⟨fuel, r, hexec⟩
    obtain ⟨⟨r', m'⟩, hprobe⟩ :=
      (exists_exec_bind_iff fun _ _ => ⟨_, exec_modify _⟩).mp ⟨r, hexec⟩
    exact (probe_exec (h.reindex_loop_push e) hprobe).1
  · intro hends
    obtain ⟨fuel, r, hprobe⟩ := exists_exec_probe (h.reindex_loop_push e) hends
    exact ⟨fuel, (exists_exec_bind_iff fun _ _ => ⟨_, exec_modify _⟩).mpr ⟨r, hprobe⟩⟩

lemma Table.forM_reindex_exec (h : m.Table) {es : List (Entry K V)} {r : Except (MapError K) Unit}
    (hexec : exec (es.forM (reindex fuel)) m = some (r, m')) : r = .ok () ∧ Rebuilt m es m' := by
  induction es generalizing m with
  | nil =>
    cases hexec
    exact ⟨rfl, h, by simp, rfl, rfl⟩
  | cons e es ih =>
    rcases exec_bind_some hexec with ⟨_, m1, hhead, htail⟩ | ⟨_, _, hhead, -⟩
    · obtain ⟨-, table, entries, capacity, size⟩ := h.reindex_exec hhead
      obtain ⟨hr, table', entries', capacity', size'⟩ := ih table htail
      refine ⟨hr, table', ?_, capacity'.trans capacity, size'.trans size⟩
      rw [entries', entries, append_assoc, ← filter_append, singleton_append]
    · obtain ⟨heq, -⟩ := h.reindex_exec hhead
      cases heq

lemma exec_forM_append {pre es : List (Entry K V)} {t : CompactHashMap K V}
    {r : Except (MapError K) Unit × CompactHashMap K V}
    (hexec : exec ((pre ++ es).forM (reindex fuel)) m = some r)
    (hpre : exec (pre.forM (reindex fuel')) m = some (.ok (), t)) :
    exec (es.forM (reindex fuel)) t = some r := by
  induction pre generalizing m with
  | nil =>
    cases hpre
    exact hexec
  | cons e pre ih =>
    rcases exec_bind_some hpre with ⟨_, m1, hhead, htail⟩ | ⟨_, _, _, heq⟩
    · rcases exec_bind_some hexec with ⟨_, m2, hhead', htail'⟩ | ⟨_, _, hhead', -⟩
      · cases (mono_reindex e).agree hhead hhead'
        exact ih htail' htail
      · cases (mono_reindex e).agree hhead hhead'
    · cases heq

/-- The states of a loop over `es` in which an entry is re-indexed. -/
def ReindexStarts (m : CompactHashMap K V) (es : List (Entry K V)) (t : CompactHashMap K V)
    (e : Entry K V) : Prop :=
  ∃ fuel pre post, es = pre ++ e :: post ∧ e.isActive = true ∧
    exec (pre.forM (reindex fuel)) m = some (.ok (), t)

lemma ReindexStarts.table {es : List (Entry K V)} {t : CompactHashMap K V} (h : m.Table)
    (hstarts : ReindexStarts m es t e) : t.Table ∧ e ∈ es := by
  obtain ⟨fuel, pre, post, rfl, -, hpre⟩ := hstarts
  exact ⟨(h.forM_reindex_exec hpre).2.table, mem_append_right pre mem_cons_self⟩

lemma Table.exists_exec_forM_iff (h : m.Table) :
    (∃ fuel r, exec (es.forM (reindex fuel)) m = some r) ↔ ∀ t e, ReindexStarts m es t e →
        ∃ n, t.emptyAt (after t.mask e.hash n).i = true := by
  constructor
  · rintro ⟨fuel, r, hexec⟩ t e ⟨fuel', pre, post, rfl, hactive, hpre⟩
    obtain ⟨-, table, -⟩ := h.forM_reindex_exec hpre
    refine (table.exists_exec_reindex_iff hactive).mp ⟨fuel, ?_⟩
    rcases exec_bind_some (exec_forM_append hexec hpre) with ⟨_, _, hhead, -⟩ | ⟨_, _, hhead, -⟩
    all_goals exact ⟨_, hhead⟩
  · intro hmeets
    induction es generalizing m with
    | nil => exact ⟨0, _, rfl⟩
    | cons e es ih =>
      obtain ⟨fuel, ⟨r, m1⟩, hhead⟩ : ∃ fuel r, exec (reindex fuel e) m = some r := by
        cases hactive : e.isActive with
        | false => exact ⟨0, _, exec_reindex_inactive 0 hactive⟩
        | true =>
          exact (h.exists_exec_reindex_iff hactive).mpr (hmeets m e ⟨0, [], es, rfl, hactive, rfl⟩)
      obtain ⟨rfl, rebuilt⟩ := h.reindex_exec hhead
      obtain ⟨fuel', r, htail⟩ := ih rebuilt.table (by
        rintro t e' ⟨fuel', pre, post, rfl, hactive, hpre⟩
        refine hmeets t e' ⟨max fuel fuel', e :: pre, post, rfl, hactive, ?_⟩
        have hhead' := (mono_reindex e).exec_of_le (Nat.le_max_left fuel fuel') hhead
        exact (exec_bind_ok hhead').trans
          ((forM mono_reindex pre).exec_of_le (Nat.le_max_right fuel fuel') hpre))
      refine ⟨max fuel fuel', r, ?_⟩
      have hhead' := (mono_reindex e).exec_of_le (Nat.le_max_left fuel fuel') hhead
      exact (exec_bind_ok hhead').trans
        ((forM mono_reindex es).exec_of_le (Nat.le_max_right fuel fuel') htail)

lemma exec_resize (fuel : Nat) : exec (resize fuel newCapacity) m =
      exec (m.entries.forM (reindex fuel)) (m.emptied newCapacity) := by
  rw [resize, exec_bind_ok (exec_getThe m), exec_bind_ok (exec_modify m)]

lemma mono_resize : Mono fun fuel => (resize fuel newCapacity : MapM K V Unit) :=
  Mono.bind (const _) fun _ => Mono.bind (const _) fun _ => forM mono_reindex _

/-! ## The loop of `_lookup` -/

variable [BEq K]

/-- Slot `i` is `EMPTY` or has the key. -/
def holdsAt (m : CompactHashMap K V) (key : K) (hashVal : Int) (i : Nat) : Bool :=
  match m.indices[i]? with
  | some .empty => true
  | some (.entry idx) =>
    match m.entries[idx]? with
    | some e => e.isActive && e.hash == hashVal && e.key == key
    | none => false
  | _ => false

def Matches (key : K) (hashVal : Int) (e : Entry K V) : Prop :=
  e.isActive = true ∧ e.hash = hashVal ∧ (e.key == key) = true

inductive LookupPost (m : CompactHashMap K V) (key : K) (hashVal : Int) : Found → Prop
  | hit {slot idx : Nat} {e : Entry K V} {firstDummy : Option Nat}
      (hslot : m.indices[slot]? = some (.entry idx)) (hentry : m.entries[idx]? = some e)
      (hmatch : Matches key hashVal e) : LookupPost m key hashVal ⟨slot, some idx, firstDummy⟩
  | miss {slot : Nat} {firstDummy : Option Nat} (hopen : m.Opening hashVal slot)
      (hnone : ∀ e ∈ m.entries, ¬ Matches key hashVal e) :
      LookupPost m key hashVal ⟨slot, none, firstDummy⟩

lemma Table.lookupRound_cases (h : m.Table) (key : K) (hp : p.toCursor = after m.mask hashVal n) :
    (m.indices[p.i]? = some .empty ∧ lookupRound key hashVal m p =
        .done (p, .ok ⟨p.firstDummy.getD p.i, none, p.firstDummy⟩)) ∨
    (∃ idx e, m.indices[p.i]? = some (.entry idx) ∧ m.entries[idx]? = some e ∧
      Matches key hashVal e ∧
      lookupRound key hashVal m p = .done (p, .ok ⟨p.i, some idx, p.firstDummy⟩)) ∨
    (m.holdsAt key hashVal p.i = false ∧
      ∃ d, lookupRound key hashVal m p = .again (Probe.next m.mask { p with firstDummy := d }) ∧
        (d = p.firstDummy ∨ d = some (p.firstDummy.getD p.i) ∧ m.indices[p.i]? = some .dummy)) := by
  obtain ⟨slot, hslot⟩ := h.slotAt_isSome hashVal
  rw [slotAt, ← hp] at hslot
  cases slot with
  | empty =>
    left
    exact ⟨hslot, by simp only [lookupRound, hslot]⟩
  | dummy =>
    right; right
    refine ⟨by simp only [holdsAt, hslot], some (p.firstDummy.getD p.i), ?_, Or.inr ⟨rfl, hslot⟩⟩
    simp only [lookupRound, hslot]
  | entry idx =>
    right
    obtain ⟨e, he, -⟩ := h.live hslot
    by_cases hmatch : (e.isActive && e.hash == hashVal && e.key == key) = true
    · left
      refine ⟨idx, e, hslot, he, ?_, by simp only [lookupRound, hslot, he, hmatch, if_true]⟩
      simp only [Bool.and_eq_true, beq_iff_eq] at hmatch
      exact ⟨hmatch.1.1, hmatch.1.2, hmatch.2⟩
    · right
      refine ⟨by simp only [holdsAt, hslot, he, hmatch], p.firstDummy, ?_, Or.inl rfl⟩
      simp only [lookupRound, hslot, he, hmatch, if_false, Bool.false_eq_true]

/-- The invariant of the loop: the round, what was not met before it, and the first tombstone. -/
def LookupInv (m : CompactHashMap K V) (key : K) (hashVal : Int) (p : Probe) : Prop :=
  ∃ n, p.toCursor = after m.mask hashVal n ∧
    (∀ j < n, m.holdsAt key hashVal (after m.mask hashVal j).i = false) ∧
    ∀ d, p.firstDummy = some d →
      m.indices[d]? = some .dummy ∧ ∃ j < n, (after m.mask hashVal j).i = d

lemma lookupInv_start (m : CompactHashMap K V) (key : K) (hashVal : Int) :
    m.LookupInv key hashVal (m.startProbe hashVal) := by
  refine ⟨0, rfl, ?_, ?_⟩
  · intro j hj
    omega
  · nofun

lemma Table.lookupInv_again (h : m.Table) (hp : m.LookupInv key hashVal p)
    (hround : lookupRound key hashVal m p = .again p') :
    m.LookupInv key hashVal p' ∧ p'.toCursor = p.toCursor.next m.mask := by
  obtain ⟨n, hn, hbefore, hdummy⟩ := hp
  rcases h.lookupRound_cases key hn with ⟨-, hr⟩ | ⟨_, _, _, _, _, hr⟩ | ⟨hholds, d, hr, hd⟩
  · rw [hr] at hround
    cases hround
  · rw [hr] at hround
    cases hround
  · rw [hr] at hround
    cases hround
    refine ⟨⟨n + 1, ?_, ?_, ?_⟩, rfl⟩
    · rw [after_succ, ← hn]
      rfl
    · intro j hj
      rcases Nat.lt_succ_iff_lt_or_eq.mp hj with hlt | rfl
      · exact hbefore j hlt
      · rw [← hn]
        exact hholds
    · intro d' hd'
      have hkept : p.firstDummy = some d' →
          m.indices[d']? = some .dummy ∧ ∃ j < n + 1, (after m.mask hashVal j).i = d' := by
        intro hfirst
        obtain ⟨hslot, j, hj, hi⟩ := hdummy d' hfirst
        exact ⟨hslot, j, by omega, hi⟩
      rcases hd with rfl | ⟨rfl, hslot⟩
      · exact hkept hd'
      · -- the first tombstone is the old one, or this slot
        cases hfirst : p.firstDummy with
        | some =>
          rw [hfirst, Option.getD_some] at hd'
          exact hkept (hfirst.trans hd')
        | none =>
          rw [hfirst, Option.getD_none] at hd'
          cases hd'
          exact ⟨hslot, n, by omega, by rw [← hn]⟩

lemma Table.miss_of_empty (h : m.Table) (hempty : m.slotAt hashVal n = some .empty)
    (hbefore : ∀ j < n, m.holdsAt key hashVal (after m.mask hashVal j).i = false) :
    ∀ e ∈ m.entries, ¬ Matches key hashVal e := by
  rintro e he ⟨hactive, rfl, hkey⟩
  obtain ⟨idx, hidx⟩ := getElem?_of_mem he
  obtain ⟨n', hslot, hunbroken⟩ := h.chain hidx hactive
  rcases Nat.lt_trichotomy n' n with hlt | rfl | hlt
  · have := hbefore n' hlt
    rw [slotAt] at hslot
    simp [holdsAt, hslot, hidx, hactive, hkey] at this
  · rw [hempty] at hslot
    cases hslot
  · exact hunbroken n hlt hempty

lemma Table.lookup_loop (h : m.Table) {r : Except (MapError K) Found}
    (hloop : loop (lookupRound key hashVal m) fuel (m.startProbe hashVal) = some (p, r)) :
    ∃ found, r = .ok found ∧ m.LookupPost key hashVal found := by
  refine loop_induct (I := m.LookupInv key hashVal)
    (Q := fun b => ∃ found, b.2 = .ok found ∧ m.LookupPost key hashVal found)
    (fun p p' hp hround => (h.lookupInv_again hp hround).1) ?_ (lookupInv_start m key hashVal) hloop
  rintro p b ⟨n, hn, hbefore, hdummy⟩ hround
  rcases h.lookupRound_cases key hn with ⟨hempty, hr⟩ | ⟨idx, e, hslot, he, hmatch, hr⟩ |
    ⟨-, d, hr, -⟩
  · rw [hr] at hround
    cases hround
    refine ⟨_, rfl,
      .miss ?_ (h.miss_of_empty (n := n) (by rw [slotAt, ← hn]; exact hempty) hbefore)⟩
    have hunbroken : ∀ n' ≤ n, m.Unbroken hashVal n' := by
      intro n' hle j hj hslot
      have := hbefore j (by omega)
      rw [slotAt] at hslot
      simp [holdsAt, hslot] at this
    cases hfirst : p.firstDummy with
    | none => exact ⟨Or.inl hempty, n, by rw [← hn]; rfl, hunbroken n (Nat.le_refl n)⟩
    | some d =>
      obtain ⟨hslot, j, hj, hi⟩ := hdummy d hfirst
      exact ⟨Or.inr hslot, j, hi, hunbroken j (by omega)⟩
  · rw [hr] at hround
    cases hround
    exact ⟨_, rfl, .hit hslot he hmatch⟩
  · rw [hr] at hround
    cases hround

lemma Table.lookup_ends_iff (h : m.Table) (key : K) (hashVal : Int) :
    Ends (lookupRound key hashVal m) (m.startProbe hashVal) ↔
      ∃ n, m.holdsAt key hashVal (after m.mask hashVal n).i = true := by
  refine ends_iff_exists_iterate (I := m.LookupInv key hashVal) Probe.toCursor
    (next m.mask) (fun c => m.holdsAt key hashVal c.i = true) ?_
    (fun p p' hp hround => h.lookupInv_again hp hround) (lookupInv_start m key hashVal)
  rintro p ⟨n, hn, -⟩
  rcases h.lookupRound_cases key hn with ⟨hempty, hr⟩ | ⟨idx, e, hslot, he, hmatch, hr⟩ |
    ⟨hholds, d, hr, -⟩
  · simp [hr, holdsAt, hempty]
  · obtain ⟨hactive, hhash, hkey⟩ := hmatch
    simp [hr, holdsAt, hslot, he, hactive, hhash, hkey]
  · simp [hr, hholds]

end CompactHashMap
end CleanArch
