import CleanArch.Memory.UnitOfWork
import CleanArch.Steps.Along

/-!
# What a rollback restores

A block of operations in a unit of work raises, and the snapshot of its start is put back. Every
repository then reads as at the start, except where a user object that the snapshot holds was
written in place, or a view count has changed: neither is part of the snapshot (`Harmless`).
-/

namespace CleanArch

open Assoc Memory MemoryRead Objects Steps UserRepository

section Rollback

variable [PyCase]

namespace UserRepository

/-! ## What an operation does to the objects -/

def written (s : UserRepository) : UserRepoOp → Option (Ref × UserEntity)
  | .update userId c none => (s.getById userId).map fun r => (r, c.apply (s.heap.read r))
  | .updateNid userId nidNumber => (s.getById userId).map fun r =>
      (r, { s.heap.read r with
        nidNumber := nidNumber, version := (s.heap.read r).version + 1 })
  | .updateWithOptimisticLock userId expectedVersion data => (s.getById userId).bind fun r =>
      if (s.heap.read r).version = expectedVersion then some (r, data.assign (s.heap.read r))
      else none
  | _ => none

/-- An operation replaces dictionaries, and makes an object, writes one, or does neither. -/
inductive Touched (s : UserRepository) : Option (Ref × UserEntity) → UserRepository → Prop
  | none (d : UserDicts) : Touched s none { s with toUserDicts := d }
  | made (d : UserDicts) (user : UserEntity) :
      Touched s none { s with toUserDicts := d, heap := s.heap.alloc user }
  | wrote (d : UserDicts) (r : Ref) (user : UserEntity) :
      Touched s (some (r, user)) { s with toUserDicts := d, heap := s.heap.write r user }

lemma touched_call (s : UserRepository) (op : UserRepoOp) :
    Touched s (s.written op) (s.call op) := by
  have hsame : Touched s none s := .none s.toUserDicts
  cases op with
  | create => exact .made _ _
  | update userId c nidNumber =>
    cases nidNumber with
    | some => exact hsame
    | none =>
      simp only [call, update, written]
      cases s.getById userId with
      | none => exact hsame
      | some r => exact .wrote _ r _
  | updateNid userId =>
    simp only [call, updateNid, written]
    cases s.getById userId with
    | none => exact hsame
    | some r => exact .wrote _ r _
  | updatePermissions userId =>
    simp only [call, updatePermissions, written]
    cases s.getById userId with
    | none => exact hsame
    | some => exact .made _ _
  | updateWithOptimisticLock userId expectedVersion =>
    simp only [call, updateWithOptimisticLock, written]
    cases s.getById userId with
    | none => exact hsame
    | some r =>
      by_cases hv : (s.heap.read r).version = expectedVersion
      · simp only [hv, ne_eq, not_true_eq_false, if_false, Option.bind_some, if_true]
        exact .wrote _ r _
      · simp only [hv, ne_eq, not_false_eq_true, if_true, Option.bind_some, if_false]
        exact hsame

omit [PyCase] in
lemma Touched.size_le (h : Touched s w s') : s.heap.size ≤ s'.heap.size := by
  cases h <;> simp

omit [PyCase] in
lemma Touched.views (h : Touched s w s') : s'.views = s.views := by
  cases h <;> rfl

omit [PyCase] in
lemma Touched.read (h : Touched s w s') (hr : r < s.heap.size) :
    s'.heap.read r = (w.filter fun p => p.1 = r).elim (s.heap.read r) Prod.snd := by
  cases h with
  | none => rfl
  | made d user => exact Heap.read_alloc_of_lt hr user
  | wrote d r' =>
    by_cases hr' : r' = r
    · subst hr'
      simp [Option.filter, Heap.read_write_self hr]
    · simp [Option.filter, Heap.read_write_of_ne s.heap (Ne.symm hr'), hr']

/-! ## View counts -/

omit [PyCase] in
lemma getViews_incrementViewsBatch (s : UserRepository) (viewsMap : List (Int × Nat)) :
    (∀ id, (s.incrementViewsBatch viewsMap).2.getViews id = s.getViews id) ↔
      ∀ p ∈ viewsMap, p.2 = 0 := by
  have hsum : ∀ id, (s.incrementViewsBatch viewsMap).2.getViews id =
      s.getViews id + ((viewsMap.filter fun p => p.1 = id).map Prod.snd).sum :=
    getViews_foldl viewsMap s.views
  constructor
  · intro h p hp
    have hzero : ((viewsMap.filter fun q => q.1 = p.1).map Prod.snd).sum = 0 := by
      have := h p.1
      rw [hsum] at this
      omega
    refine List.sum_eq_zero_iff_forall_eq_nat.mp hzero p.2 (List.mem_map_of_mem ?_)
    exact List.mem_filter.mpr ⟨hp, by simp⟩
  · intro h id
    rw [hsum, List.sum_eq_zero_iff_forall_eq_nat.mpr, Nat.add_zero]
    intro n hn
    obtain ⟨p, hp, rfl⟩ := List.mem_map.mp hn
    exact h p (List.mem_filter.mp hp).1

end UserRepository

/-! ## The condition -/

/-- The operation leaves the user objects of the snapshot as they are, and every view count. `s` is
the state before it; the snapshot holds the objects of `entry`. -/
def Harmless (entry s : UserRepository) : MemoryOp → Prop
  | .user op => ∀ r user, s.written op = some (r, user) → r ∈ entry.store.map Prod.snd →
      user = s.heap.read r
  | .incrementViewsBatch viewsMap => ∀ p ∈ viewsMap, p.2 = 0
  | .clearUsers => ∀ id, s.getViews id = 0
  | _ => True

/-- What the snapshot of `entry` does not restore is the same in `s`. -/
structure Unwritten (entry s : UserRepository) : Prop where
  objects : ∀ r ∈ entry.store.map Prod.snd, s.heap.read r = entry.heap.read r
  views : ∀ id, s.getViews id = entry.getViews id

lemma size_le_onUsers (s : UserRepository) (op : MemoryOp) :
    s.heap.size ≤ (op.onUsers s).heap.size := by
  cases op with
  | user op => exact (s.touched_call op).size_le
  | deleteUser userId =>
    simp only [MemoryOp.onUsers, delete]
    cases s.getById userId <;> exact Nat.le_refl _
  | _ => exact Nat.le_refl _

omit [PyCase] in
lemma Unwritten.of_same (h : Unwritten entry s) (hheap : s'.heap = s.heap)
    (hviews : s'.views = s.views) : Unwritten entry s' where
  objects r hr := by rw [hheap, h.objects r hr]
  views id := by rw [← h.views id, getViews, getViews, hviews]

lemma unwritten_onUsers (hlt : ∀ r ∈ entry.store.map Prod.snd, r < s.heap.size)
    (h : Unwritten entry s) :
    Unwritten entry (op.onUsers s) ↔ Harmless entry s op := by
  cases op with
  | user op =>
    have ht := s.touched_call op
    constructor
    · intro h' r user hw hr
      have hread := ht.read (hlt r hr)
      rw [hw] at hread
      simp only [Option.filter_some, decide_true, if_true, Option.elim_some] at hread
      rw [← hread, h.objects r hr]
      exact h'.objects r hr
    · intro hharm
      refine ⟨fun r hr => ?_, fun id => ?_⟩
      · rw [← h.objects r hr]
        refine (ht.read (hlt r hr)).trans ?_
        cases hw : s.written op with
        | none => rfl
        | some p =>
          by_cases hp : p.1 = r
          · subst hp
            simp [Option.filter, hharm p.1 p.2 hw hr]
          · simp [Option.filter, hp]
      · rw [← h.views id, getViews, getViews,
          show (MemoryOp.onUsers s (.user op)).views = s.views from ht.views]
  | incrementViewsBatch viewsMap =>
    refine Iff.trans ⟨fun h' id => ?_, fun hsame => ⟨h.objects, fun id => ?_⟩⟩
      (s.getViews_incrementViewsBatch viewsMap)
    · exact (h'.views id).trans (h.views id).symm
    · exact (hsame id).trans (h.views id)
  | clearUsers =>
    constructor
    · intro h' id
      exact (h.views id).trans (h'.views id).symm
    · exact fun hzero => ⟨h.objects, fun id => (hzero id).symm.trans (h.views id)⟩
  | deleteUser userId =>
    refine iff_of_true ?_ trivial
    simp only [MemoryOp.onUsers, delete]
    cases s.getById userId with
    | none => exact h
    | some => exact h.of_same rfl rfl
  | _ => exact iff_of_true h trivial

/-! ## Rollback -/

lemma foldl_exec_eq (u : InMemoryUnitOfWork) (ops : List MemoryOp) :
    ops.foldl InMemoryUnitOfWork.exec u = { u with memory := ops.foldl exec u.memory } := by
  induction ops generalizing u with
  | nil => rfl
  | cons op ops ih => exact ih _

lemma raisingBlock_eq (m : Memory) (ops : List MemoryOp) :
    raisingBlock m ops = (ops.foldl exec m).restore m.snapshot := by
  unfold raisingBlock
  rw [foldl_exec_eq]
  rfl

lemma reads_restore_iff (hm : m.users.Ok) (m' : Memory) :
    (∀ q : MemoryRead, q.eval (m'.restore m.snapshot) = q.eval m) ↔ Unwritten m.users m'.users := by
  constructor
  · intro h
    refine ⟨fun r hr => ?_, fun id => h (.views id)⟩
    obtain ⟨⟨id, r⟩, hp, rfl⟩ := List.mem_map.mp hr
    have hfind : find m.users.store id = some r :=
      UserDicts.Fits.distinct hm |>.find_of_mem hp (beq_self_eq_true id)
    have hread : (find m.users.store id).map m'.users.heap.read =
        (find m.users.store id).map m.users.heap.read := h (.userById id)
    simpa [hfind] using hread
  · rintro ⟨hobjects, hviews⟩ q
    have hread : ∀ id, (find m.users.store id).map m'.users.heap.read =
        (find m.users.store id).map m.users.heap.read := by
      intro id
      cases hfind : find m.users.store id with
      | none => rfl
      | some r =>
        simp [hobjects r (List.mem_map_of_mem (f := Prod.snd) (mem_of_find hfind))]
    have hderef : m'.users.heap.deref m.users.store = m.users.heap.deref m.users.store :=
      Heap.deref_congr fun p hp => hobjects p.2 (List.mem_map_of_mem hp)
    cases q with
    | userById userId => exact hread userId
    | userByEmail email =>
      simp only [eval, restore, snapshot, getByEmail]
      cases find m.users.emailIndex (some email) with
      | none => rfl
      | some id => exact hread id
    | userByUsername username =>
      simp only [eval, restore, snapshot, getByUsername]
      cases find m.users.usernameIndex (some username) with
      | none => rfl
      | some id => exact hread id
    | listUsers =>
      simp only [eval, listAll, restore, snapshot, hderef]
      rfl
    | views userId => exact hviews userId
    | _ => rfl

/-- A block of operations, wherever it raises: every read of every repository returns what it
would have returned at the start, if and only if every operation of the block is harmless in its
turn. -/
theorem rollback_iff (m : Memory) (hm : m.users.Ok) (ops : List MemoryOp) :
    (∀ block, block <+: ops → ∀ q : MemoryRead, q.eval (raisingBlock m block) = q.eval m) ↔
      Along exec (fun m' op => Harmless m.users m'.users op) m ops := by
  have hstart : Unwritten m.users m.users := ⟨fun _ _ => rfl, fun _ => rfl⟩
  have halways : (∀ block, block <+: ops → ∀ q : MemoryRead,
      q.eval (raisingBlock m block) = q.eval m) ↔
      Always exec (fun m' => Unwritten m.users m'.users) m ops := by
    refine forall_congr' fun block => forall_congr' fun _ => ?_
    rw [raisingBlock_eq]
    exact reads_restore_iff hm _
  rw [halways]
  refine always_iff_along (I := fun m' => m.users.heap.size ≤ m'.users.heap.size) ?_ ?_
    (Nat.le_refl _) hstart
  · intro m' op hle _
    rw [exec_users]
    exact hle.trans (size_le_onUsers m'.users op)
  · intro m' op hle h
    rw [exec_users]
    refine unwritten_onUsers (fun r hr => ?_) h
    obtain ⟨⟨id, r⟩, hp, rfl⟩ := List.mem_map.mp hr
    exact Nat.lt_of_lt_of_le (UserDicts.Fits.lt_size hm id r hp) hle

end Rollback

def annStored : Memory where
  users := (({} : UserRepository).create 0 ann).2

/-- A second user and their post, in a block that raises. -/
theorem rollback_iff_register :
    letI := asciiCase
    annStored.users.Ok ∧
      ((∀ block, block <+: [.user (.create 1 { ann with email := "b", username := "bob" }),
          .createPost 1 "title" "text" 2] → ∀ q : MemoryRead,
          q.eval (raisingBlock annStored block) = q.eval annStored) ↔
        Along exec (fun m op => Harmless annStored.users m.users op) annStored
          [.user (.create 1 { ann with email := "b", username := "bob" }),
            .createPost 1 "title" "text" 2]) :=
  letI := asciiCase
  have hm : annStored.users.Ok := ok_empty.create 0 ann
  ⟨hm, rollback_iff annStored hm _⟩

/-- The age of the stored user is changed, or their views are counted, and the block raises: the
reads show the change. -/
theorem rollback_keeps_writes :
    letI := asciiCase
    ((userById 1).eval annStored : Option UserEntity).map UserEntity.age =
        some (some 30) ∧
      ((userById 1).eval (raisingBlock annStored
        [.user (.update 1 { age := some 31 } none)]) : Option UserEntity).map UserEntity.age =
        some (some 31) ∧
      (views 1).eval annStored = (0 : Nat) ∧
      (views 1).eval (raisingBlock annStored [.incrementViewsBatch [(1, 5)]]) =
        (5 : Nat) := by
  exact ⟨rfl, rfl, rfl, rfl⟩

end CleanArch
