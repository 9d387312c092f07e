import CleanArch.Dsa.HashMapSpec

/-!
# The calls of the hash map

What each method has done when it returned (`…_exec`), from a map that is `Sound`: its table is
right, and less than two thirds of it is used.
-/

namespace CleanArch

open List Loops Mono

namespace CompactHashMap

variable {K V : Type} {hash : K → Int} {m m' : CompactHashMap K V} {key : K} {value : V}

/-! ## The invariant between calls -/

structure Sound (m : CompactHashMap K V) : Prop where
  table : m.Table
  load : m.entries.length * 3 < m.capacity * 2

lemma Sound.pow_two (h : m.Sound) : ∃ k, m.capacity * 2 = 2 ^ k := by
  obtain ⟨k, hk⟩ := h.table.pow
  exact ⟨k + 1, by rw [hk, pow_succ]⟩

lemma Sound.noted (h : m.Sound) (p : Probe) : (m.noted p).Sound := ⟨h.table.noted p, h.load⟩

lemma Sound.resize_exec (h : m.Sound)
    (hexec : exec (resize fuel (m.capacity * 2)) m = some (r, m')) :
    r = .ok () ∧ Rebuilt (m.emptied (m.capacity * 2)) m.entries m' := by
  obtain ⟨k, hk⟩ := h.pow_two
  rw [exec_resize, hk] at hexec
  rw [hk]
  exact (table_emptied m).forM_reindex_exec hexec

lemma Sound.of_rebuilt (h : m.Sound) (hr : Rebuilt (m.emptied (m.capacity * 2)) m.entries m') :
    m'.entries = m.active ∧ m'.active = m.active ∧
      (m'.entries.length + 1) * 3 < m'.capacity * 2 := by
  have hentries : m'.entries = m.active := by
    rw [hr.entries]
    rfl
  refine ⟨hentries, ?_, ?_⟩
  · rw [active, hentries, active, filter_filter]
    simp
  · have hcap : m'.capacity = m.capacity * 2 := hr.capacity
    have hle : m'.entries.length ≤ m.entries.length := by
      rw [hentries]
      exact length_filter_le _ _
    have hload := h.load
    by_cases hzero : m'.entries.length = 0
    all_goals omega

lemma sound_of_no_entries {capacity : Nat} (k : Nat) (hcap : capacity = 2 ^ k)
    (hm : m = m.emptied capacity) : m.Sound := by
  subst hcap
  rw [hm]
  refine ⟨table_emptied m, ?_⟩
  have := Nat.two_pow_pos k
  simp only [emptied, length_nil]
  omega

lemma sound_cleared : (cleared : CompactHashMap K V).Sound :=
  sound_of_no_entries 3 rfl rfl

lemma sound_init (h : init fuel initialCapacity = some m) : m.Sound := by
  obtain ⟨capacity, hloop, hm⟩ := Option.bind_eq_some_iff.mp h
  obtain ⟨k, hk⟩ : ∃ k, capacity = 2 ^ k := by
    refine loop_induct (I := fun capacity : Nat => ∃ k, capacity = 2 ^ k)
      (Q := fun capacity => ∃ k, capacity = 2 ^ k) ?_ ?_ ⟨3, rfl⟩ hloop
    · rintro _ capacity' ⟨k, rfl⟩ hround
      rw [capacityRound] at hround
      split at hround
      · cases hround
        exact ⟨k + 1, by rw [Nat.shiftLeft_eq, pow_one, pow_succ]⟩
      · cases hround
    · rintro capacity b hI hround
      rw [capacityRound] at hround
      split at hround
      · cases hround
      · cases hround
        exact hI
  cases hm
  exact sound_of_no_entries k hk rfl

lemma exec_map_some {α β : Type} {x : MapM K V α} {f : α → β}
    {r : Except (MapError K) β × CompactHashMap K V}
    (hexec : exec (x >>= fun a => pure (f a)) m = some r) :
    ∃ a, exec x m = some (a, r.2) ∧ r.1 = a.map f := by
  rcases exec_bind_some hexec with ⟨a, m1, hx, hrest⟩ | ⟨e, m1, hx, rfl⟩
  · cases hrest
    exact ⟨.ok a, hx, rfl⟩
  · exact ⟨.error e, hx, rfl⟩

/-! ## `_lookup` -/

variable [BEq K]

lemma mono_lookup (key : K) (hashVal : Int) :
    Mono fun fuel => (lookup fuel key hashVal : MapM K V Found) :=
  mono_probe hashVal

lemma Table.lookup_exec (h : m.Table) {r : Except (MapError K) Found}
    (hexec : exec (lookup fuel key hashVal) m = some (r, m')) :
    ∃ found p, r = .ok found ∧ m' = m.noted p ∧ m.LookupPost key hashVal found :=
  (probe_exec h.lookup_loop hexec).2

lemma Table.exists_exec_lookup_iff (h : m.Table) (key : K) (hashVal : Int) :
    (∃ fuel r, exec (lookup fuel key hashVal) m = some r) ↔
      ∃ n, m.holdsAt key hashVal (Cursor.after m.mask hashVal n).i = true := by
  rw [← h.lookup_ends_iff]
  constructor
  · rintro ⟨fuel, ⟨r, m'⟩, hexec⟩
    exact (probe_exec h.lookup_loop hexec).1
  · exact exists_exec_probe h.lookup_loop

lemma Table.exec_lookup_bind {α : Type} (h : m.Table) {f : Found → MapM K V α}
    {r : Except (MapError K) α × CompactHashMap K V}
    (hexec : exec (lookup fuel key hashVal >>= f) m = some r) :
    ∃ found p, exec (lookup fuel key hashVal) m = some (.ok found, m.noted p) ∧
      m.LookupPost key hashVal found ∧ exec (f found) (m.noted p) = some r := by
  rcases exec_bind_some hexec with ⟨found, m1, hlookup, hrest⟩ | ⟨_, _, hlookup, -⟩
  · obtain ⟨_, p, heq, rfl, hpost⟩ := h.lookup_exec hlookup
    cases heq
    exact ⟨found, p, hlookup, hpost, hrest⟩
  · obtain ⟨_, _, heq, -⟩ := h.lookup_exec hlookup
    cases heq

/-! ## Reads -/

lemma Table.getitem_exec (h : m.Table) {r : Except (MapError K) V}
    (hexec : exec (getitem hash fuel key) m = some (r, m')) :
    ∃ p, m' = m.noted p ∧ ((∃ e ∈ m.entries, Matches key (hash key) e ∧ r = .ok e.value) ∨
        (∀ e ∈ m.entries, ¬ Matches key (hash key) e) ∧ r = .error (.keyError key)) := by
  obtain ⟨found, p, -, hpost, hrest⟩ := h.exec_lookup_bind hexec
  refine ⟨p, ?_⟩
  cases hpost with
  | @hit slot idx e firstDummy hslot hentry hmatch =>
    rw [exec_bind_ok (exec_getThe _)] at hrest
    have hentry' : (m.noted p).entries[idx]? = some e := hentry
    simp only [hentry', exec_pure] at hrest
    cases hrest
    exact ⟨rfl, Or.inl ⟨e, mem_of_getElem? hentry, hmatch, rfl⟩⟩
  | miss hopen hnone =>
    cases hrest
    exact ⟨rfl, Or.inr ⟨hnone, rfl⟩⟩

lemma Table.getDefault_exec (h : m.Table) {default : Option V} {r : Except (MapError K) (Option V)}
    (hexec : exec (getDefault hash fuel key default) m = some (r, m')) :
    ∃ p, m' = m.noted p ∧ ((∃ e ∈ m.entries, Matches key (hash key) e ∧ r = .ok (some e.value)) ∨
        (∀ e ∈ m.entries, ¬ Matches key (hash key) e) ∧ r = .ok default) := by
  rw [getDefault, exec_tryCatch, exec_bind] at hexec
  cases hget : exec (getitem hash fuel key) m with
  | none =>
    rw [hget] at hexec
    cases hexec
  | some b =>
    obtain ⟨r', m1⟩ := b
    rw [hget] at hexec
    obtain ⟨p, rfl, ⟨e, he, hmatch, rfl⟩ | ⟨hnone, rfl⟩⟩ := h.getitem_exec hget
    · cases hexec
      exact ⟨p, rfl, Or.inl ⟨e, he, hmatch, rfl⟩⟩
    · cases hexec
      exact ⟨p, rfl, Or.inr ⟨hnone, rfl⟩⟩

lemma Table.contains_exec (h : m.Table) {r : Except (MapError K) Bool}
    (hexec : exec (contains hash fuel key) m = some (r, m')) :
    ∃ p, m' = m.noted p ∧ ((∃ e ∈ m.entries, Matches key (hash key) e) ∧ r = .ok true ∨
        (∀ e ∈ m.entries, ¬ Matches key (hash key) e) ∧ r = .ok false) := by
  obtain ⟨found, p, -, hpost, hrest⟩ := h.exec_lookup_bind hexec
  refine ⟨p, ?_⟩
  cases hpost with
  | hit hslot hentry hmatch =>
    cases hrest
    exact ⟨rfl, Or.inl ⟨⟨_, mem_of_getElem? hentry, hmatch⟩, rfl⟩⟩
  | miss hopen hnone =>
    cases hrest
    exact ⟨rfl, Or.inr ⟨hnone, rfl⟩⟩

/-! ## `delete` -/

/-- What `delete` has done, with its result. -/
inductive DeletePost (hash : K → Int) (m : CompactHashMap K V) (key : K) :
    Bool → CompactHashMap K V → Prop
  | removed {slot idx : Nat} {e : Entry K V} (p : Probe)
      (hslot : m.indices[slot]? = some (.entry idx)) (hentry : m.entries[idx]? = some e)
      (hmatch : Matches key (hash key) e) :
      DeletePost hash m key true ((m.noted p).remove slot idx)
  | absent (p : Probe) (hnone : ∀ e ∈ m.entries, ¬ Matches key (hash key) e) :
      DeletePost hash m key false (m.noted p)

lemma Table.delete_exec (h : m.Table) {r : Except (MapError K) Bool}
    (hexec : exec (delete hash fuel key) m = some (r, m')) :
    ∃ b, r = .ok b ∧ m.DeletePost hash key b m' := by
  obtain ⟨found, p, -, hpost, hrest⟩ := h.exec_lookup_bind hexec
  cases hpost with
  | hit hslot hentry hmatch =>
    cases hrest
    exact ⟨true, rfl, .removed p hslot hentry hmatch⟩
  | miss hopen hnone =>
    cases hrest
    exact ⟨false, rfl, .absent p hnone⟩

lemma Table.delitem_exec (h : m.Table) (hexec : exec (delitem hash fuel key) m = some (r, m')) :
    ∃ b, m.DeletePost hash key b m' ∧ r = if b then .ok () else .error (.keyError key) := by
  rcases exec_bind_some hexec with ⟨b, m1, hdelete, hrest⟩ | ⟨_, _, hdelete, -⟩
  · obtain ⟨_, heq, hpost⟩ := h.delete_exec hdelete
    cases heq
    cases b with
    | true =>
      cases hrest
      exact ⟨true, hpost, rfl⟩
    | false =>
      cases hrest
      exact ⟨false, hpost, rfl⟩
  · obtain ⟨_, heq, -⟩ := h.delete_exec hdelete
    cases heq

/-! ## `__setitem__` -/

/-- What `__setitem__` has done. A new entry is put into the map as it was, or into a table of twice
the capacity that has only the active entries. -/
inductive SetPost (hash : K → Int) (m : CompactHashMap K V) (key : K) (value : V) :
    CompactHashMap K V → Prop
  | updated {idx : Nat} {e : Entry K V} (p : Probe) (hentry : m.entries[idx]? = some e)
      (hmatch : Matches key (hash key) e) :
      SetPost hash m key value ((m.noted p).setValue idx value)
  | inserted {m1 : CompactHashMap K V} {slot : Nat}
      (hnone : ∀ e ∈ m.entries, ¬ Matches key (hash key) e) (htable : m1.Table)
      (hload : (m1.entries.length + 1) * 3 < m1.capacity * 2) (hactive : m1.active = m.active)
      (hmem : ∀ e ∈ m1.entries, e ∈ m.entries) (hsize : m1.size = m.size)
      (hopen : m1.Opening (hash key) slot)
      (hcap : m1.capacity = if m.isFull then m.capacity * 2 else m.capacity) :
      SetPost hash m key value (m1.append slot { hash := hash key, key, value })

lemma Sound.setitem_exec (h : m.Sound)
    (hexec : exec (setitem hash fuel key value) m = some (r, m')) :
    r = .ok () ∧ m.SetPost hash key value m' := by
  obtain ⟨found, p, -, hpost, hrest⟩ := h.table.exec_lookup_bind hexec
  have hsound := h.noted p
  cases hpost with
  | hit hslot hentry hmatch =>
    cases hrest
    exact ⟨rfl, .updated p hentry hmatch⟩
  | miss hopen hnone =>
    rw [exec_bind_ok (exec_getThe _)] at hrest
    by_cases hfull : (m.noted p).isFull = true
    · rw [if_pos hfull, exec_bind_ok (exec_getThe _)] at hrest
      rcases exec_bind_some hrest with ⟨_, m1, hresize, hrest⟩ | ⟨_, _, hresize, -⟩
      · obtain ⟨-, hrebuilt⟩ := hsound.resize_exec hresize
        obtain ⟨hentries, hactive, hload⟩ := hsound.of_rebuilt hrebuilt
        have hmem : ∀ e ∈ m1.entries, e ∈ m.entries := by
          intro e he
          rw [hentries] at he
          exact (mem_filter.mp he).1
        obtain ⟨found', p', -, hpost', hrest⟩ := hrebuilt.table.exec_lookup_bind hrest
        cases hpost' with
        | hit hslot' hentry' hmatch' =>
          exact absurd hmatch' (hnone _ (hmem _ (mem_of_getElem? hentry')))
        | miss hopen' =>
          cases hrest
          refine ⟨rfl, .inserted hnone (hrebuilt.table.noted p') hload hactive hmem hrebuilt.size
            hopen' ?_⟩
          exact hrebuilt.capacity.trans (if_pos hfull).symm
      · obtain ⟨heq, -⟩ := hsound.resize_exec hresize
        cases heq
    · rw [if_neg hfull] at hrest
      cases hrest
      have hload : (m.entries.length + 1) * 3 < m.capacity * 2 := by
        simpa [isFull, CompactHashMap.noted] using hfull
      exact ⟨rfl, .inserted hnone hsound.table hload rfl (fun _ he => he) rfl hopen
        (if_neg hfull).symm⟩

/-! ## Every call -/

lemma SetPost.sound (h : m.Sound) (hpost : m.SetPost hash key value m') : m'.Sound := by
  cases hpost with
  | updated p =>
    refine ⟨(h.table.noted p).setValue _ _, ?_⟩
    simp only [setValue, length_modify]
    exact h.load
  | inserted hnone htable hload hactive hmem hsize hopen =>
    refine ⟨htable.put rfl hopen rfl rfl rfl, ?_⟩
    simp only [append, length_append, length_singleton]
    exact hload

lemma DeletePost.sound (h : m.Sound) (hpost : m.DeletePost hash key b m') : m'.Sound := by
  cases hpost with
  | removed p hslot =>
    refine ⟨(h.table.noted p).remove hslot, ?_⟩
    simp only [remove, length_modify]
    exact h.load
  | absent p => exact h.noted p

inductive Change (hash : K → Int) (m : CompactHashMap K V) : CompactHashMap K V → Prop
  | none : Change hash m m
  | noted (p : Probe) : Change hash m (m.noted p)
  | set {key : K} {value : V} {m' : CompactHashMap K V} (h : m.SetPost hash key value m') :
      Change hash m m'
  | deleted {key : K} {b : Bool} {m' : CompactHashMap K V} (h : m.DeletePost hash key b m') :
      Change hash m m'
  | cleared : Change hash m CompactHashMap.cleared

lemma Sound.call_cases (h : m.Sound) {op : MapOp K V} {r : Except (MapError K) (MapOut K V)}
    (hexec : exec (call hash fuel op) m = some (r, m')) :
    (∃ key value, op = .setitem key value ∧
        exec (setitem hash fuel key value) m = some (.ok (), m')) ∨
      (∃ key b, m.DeletePost hash key b m') ∨ m' = .cleared ∨ m' = m ∨ ∃ p, m' = m.noted p := by
  cases op with
  | setitem key value =>
    obtain ⟨_, hexec, -⟩ := exec_map_some hexec
    obtain ⟨rfl, -⟩ := h.setitem_exec hexec
    exact .inl ⟨key, value, rfl, hexec⟩
  | getitem =>
    obtain ⟨_, hexec, -⟩ := exec_map_some hexec
    obtain ⟨p, hp, -⟩ := h.table.getitem_exec hexec
    exact .inr (.inr (.inr (.inr ⟨p, hp⟩)))
  | getDefault =>
    obtain ⟨_, hexec, -⟩ := exec_map_some hexec
    obtain ⟨p, hp, -⟩ := h.table.getDefault_exec hexec
    exact .inr (.inr (.inr (.inr ⟨p, hp⟩)))
  | contains =>
    obtain ⟨_, hexec, -⟩ := exec_map_some hexec
    obtain ⟨p, hp, -⟩ := h.table.contains_exec hexec
    exact .inr (.inr (.inr (.inr ⟨p, hp⟩)))
  | delete key =>
    obtain ⟨_, hexec, -⟩ := exec_map_some hexec
    obtain ⟨b, -, hpost⟩ := h.table.delete_exec hexec
    exact .inr (.inl ⟨key, b, hpost⟩)
  | delitem key =>
    obtain ⟨_, hexec, -⟩ := exec_map_some hexec
    obtain ⟨b, hpost, -⟩ := h.table.delitem_exec hexec
    exact .inr (.inl ⟨key, b, hpost⟩)
  | clear =>
    cases hexec
    exact .inr (.inr (.inl rfl))
  | len | keys | values | items =>
    cases hexec
    exact .inr (.inr (.inr (.inl rfl)))

lemma Sound.call_change (h : m.Sound) {op : MapOp K V} {r : Except (MapError K) (MapOut K V)}
    (hexec : exec (call hash fuel op) m = some (r, m')) : Change hash m m' := by
  rcases h.call_cases hexec with ⟨key, value, -, hset⟩ | ⟨key, b, hpost⟩ | rfl | rfl | ⟨p, rfl⟩
  · exact .set (h.setitem_exec hset).2
  · exact .deleted hpost
  · exact .cleared
  · exact .none
  · exact .noted p

lemma Change.sound (h : m.Sound) (hchange : Change hash m m') : m'.Sound := by
  cases hchange with
  | none => exact h
  | noted p => exact h.noted p
  | set hpost | deleted hpost => exact hpost.sound h
  | cleared => exact sound_cleared

/-! ## More rounds -/

lemma mono_getitem (key : K) : Mono fun fuel => (getitem hash fuel key : MapM K V V) :=
  bind (mono_lookup _ _) fun _ => const _

lemma mono_delete (key : K) : Mono fun fuel => (delete hash fuel key : MapM K V Bool) :=
  bind (mono_lookup _ _) fun _ => const _

lemma mono_setitem (key : K) (value : V) : Mono fun fuel => setitem hash fuel key value := by
  refine bind (mono_lookup _ _) fun found => ?_
  cases found.entryIndex with
  | some => exact const _
  | none =>
    refine bind (const _) fun self => ?_
    cases self.isFull with
    | false => exact const _
    | true =>
      refine bind (const _) fun self => bind (mono_resize) fun _ => ?_
      exact bind (mono_lookup _ _) fun _ => const _

lemma mono_call : Mono fun fuel => call hash fuel op := by
  cases op with
  | setitem key value => exact bind (mono_setitem key value) fun _ => const _
  | getitem key => exact bind (mono_getitem key) fun _ => const _
  | getDefault key =>
    refine bind (tryCatch ?_ _) fun _ => const _
    exact bind (mono_getitem key) fun _ => const _
  | contains =>
    refine bind (bind (mono_lookup _ _) fun _ => const _) fun _ => const _
  | delete key => exact bind (mono_delete key) fun _ => const _
  | delitem key =>
    refine bind (bind (mono_delete key) fun _ => const _) fun _ => const _
  | clear | len | keys | values | items => exact const _

/-! ## Hashes of the entries -/

def Hashed (hash : K → Int) (m : CompactHashMap K V) : Prop :=
  ∀ e ∈ m.entries, e.hash = hash e.key

omit [BEq K] in
lemma Hashed.modify (h : Hashed hash m) {f : Entry K V → Entry K V}
    (hent : m'.entries = m.entries.modify idx f) (hkey : ∀ e, (f e).key = e.key)
    (hhash : ∀ e, (f e).hash = e.hash) : Hashed hash m' := by
  intro e he
  rw [hent] at he
  obtain ⟨i, hi⟩ := getElem?_of_mem he
  rw [getElem?_modify] at hi
  obtain ⟨e', he', rfl⟩ := Option.map_eq_some_iff.mp hi
  have hold := h e' (mem_of_getElem? he')
  split
  · rw [hkey, hhash]
    exact hold
  · exact hold

lemma Change.hashed (h : Hashed hash m) (hchange : Change hash m m') : Hashed hash m' := by
  cases hchange with
  | none | noted => exact h
  | set hpost =>
    cases hpost with
    | updated p =>
      exact Hashed.modify (m := m.noted p) h rfl (fun _ => rfl) (fun _ => rfl)
    | inserted hnone htable hload hactive hmem =>
      intro e he
      rcases mem_append.mp he with he | he
      · exact h e (hmem e he)
      · rw [mem_singleton.mp he]
  | deleted hpost =>
    cases hpost with
    | removed p =>
      exact Hashed.modify (m := m.noted p) h rfl (fun _ => rfl) (fun _ => rfl)
    | absent => exact h
  | cleared => nofun

end CompactHashMap
end CleanArch
