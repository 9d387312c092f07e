import CleanArch.Outbox.Relay
import Mathlib.Data.List.Nodup

/-!
# The order of the acknowledgements

Two events with the same partition key are acknowledged in the order of their creation, in every
sequence of runs that are safe (`RelayRun.Safe`): when the broker acknowledges an event of a batch,
it acknowledges every earlier event of the batch with the same key too, or refuses it for the last
time.
-/

namespace CleanArch

open List

def Outbox.acks (s : Outbox) : List UUID := s.log.map (·.1)

def RelayRun.batch (run : RelayRun) (s : Outbox) : List OutboxEventEntity :=
  getPendingEvents run.batchSize s.rows

/-! ## The batch -/

section Batch

variable {rows : List OutboxEventEntity} {a b : OutboxEventEntity}

def pendingInOrder (rows : List OutboxEventEntity) : List OutboxEventEntity :=
  (rows.filter fun e => e.status = .pending).insertionSort fun a b => a.createdAt ≤ b.createdAt

lemma pendingInOrder_perm (rows : List OutboxEventEntity) :
    (pendingInOrder rows).Perm (rows.filter fun e => e.status = .pending) :=
  perm_insertionSort _ _

lemma mem_pendingInOrder : a ∈ pendingInOrder rows ↔ a ∈ rows ∧ a.status = .pending := by
  rw [(pendingInOrder_perm rows).mem_iff, mem_filter, decide_eq_true_iff]

lemma pendingInOrder_sorted (rows : List OutboxEventEntity) :
    (pendingInOrder rows).Pairwise fun a b => a.createdAt ≤ b.createdAt := by
  exact pairwise_insertionSort _ _

lemma mem_of_mem_batch (h : a ∈ getPendingEvents n rows) : a ∈ rows ∧ a.status = .pending :=
  mem_pendingInOrder.mp (mem_of_mem_take h)

lemma batch_nodup (h : (rows.map (·.id)).Nodup) : ((getPendingEvents n rows).map (·.id)).Nodup := by
  have hpending : ((pendingInOrder rows).map (·.id)).Nodup :=
    ((pendingInOrder_perm rows).map _).nodup_iff.mpr (h.sublist (filter_sublist.map _))
  exact hpending.sublist ((take_sublist n (pendingInOrder rows)).map _)

lemma batch_sorted (rows : List OutboxEventEntity) :
    (getPendingEvents n rows).Pairwise fun a b => a.createdAt ≤ b.createdAt :=
  (pendingInOrder_sorted rows).sublist (take_sublist n _)

lemma mem_batch_of_lt (hb : b ∈ getPendingEvents n rows) (ha : a ∈ rows)
    (hpending : a.status = .pending) (hlt : a.createdAt < b.createdAt) :
    a ∈ getPendingEvents n rows := by
  have hmem := mem_pendingInOrder.mpr ⟨ha, hpending⟩
  have hsorted := pendingInOrder_sorted rows
  rw [← take_append_drop n (pendingInOrder rows)] at hmem hsorted
  rcases mem_append.mp hmem with h | h
  · exact h
  · exact absurd hlt ((pairwise_append.mp hsorted).2.2 b hb a h).not_gt

lemma mem_batch_of_length_le (hn : rows.length ≤ n) (ha : a ∈ rows)
    (hpending : a.status = .pending) : a ∈ getPendingEvents n rows := by
  have hlen : (pendingInOrder rows).length ≤ n := by
    rw [(pendingInOrder_perm rows).length_eq]
    exact (length_filter_le _ _).trans hn
  change a ∈ (pendingInOrder rows).take n
  rw [take_of_length_le hlen]
  exact mem_pendingInOrder.mpr ⟨ha, hpending⟩

end Batch

/-! ## One run -/

def RelayRun.settle (run : RelayRun) (e : OutboxEventEntity) : OutboxEventEntity :=
  if (run.broker e.id).acked then e.published run.service.relay.status (run.broker e.id).now
  else e.failed maxRetries

def RelayRun.advance (run : RelayRun) (batch : List OutboxEventEntity) (e : OutboxEventEntity) :
    OutboxEventEntity :=
  if e.id ∈ batch.map (·.id) then run.settle e else e

section Step

variable {run : RelayRun} {e : OutboxEventEntity} {s : Outbox}

lemma settle_id : (run.settle e).id = e.id := by
  unfold RelayRun.settle
  split <;> rfl

lemma settle_pending (h : (run.settle e).status = .pending) :
    (run.broker e.id).acked = false ∧ e.status = .pending ∧ e.retryCount + 1 < maxRetries := by
  unfold RelayRun.settle at h
  split at h
  · -- the status of a published event
    cases hs : run.service <;> rw [hs] at h <;> cases h
  · next hacked =>
    simp only [OutboxEventEntity.failed] at h
    split at h
    · cases h
    · exact ⟨by simpa using hacked, h, by omega⟩

@[simp] lemma advance_id : (run.advance batch e).id = e.id := by
  unfold RelayRun.advance
  split
  · exact settle_id
  · rfl

@[simp] lemma advance_createdAt : (run.advance batch e).createdAt = e.createdAt := by
  unfold RelayRun.advance RelayRun.settle
  split
  · split <;> rfl
  · rfl

@[simp] lemma advance_partitionKey (service : RelayService) :
    service.relay.partitionKey (run.advance batch e) = service.relay.partitionKey e := by
  unfold RelayRun.advance RelayRun.settle
  cases service <;> split <;> (try split) <;> rfl

lemma pending_of_advance (h : (run.advance batch e).status = .pending) : e.status = .pending := by
  unfold RelayRun.advance at h
  split at h
  · exact (settle_pending h).2.1
  · exact h

lemma relayLoop_rows (run : RelayRun) (batch : List OutboxEventEntity)
    (hbatch : (batch.map (·.id)).Nodup) :
    (batch.foldl (relayEvent run.service.relay run.broker) r).rows =
      r.rows.map (run.advance batch) := by
  induction batch generalizing r with
  | nil =>
    have hid : run.advance [] = id := funext fun e => rfl
    rw [hid, map_id]
    rfl
  | cons b batch ih =>
    obtain ⟨hb, hbatch⟩ := nodup_cons.mp hbatch
    have hfirst : (relayEvent run.service.relay run.broker r b).rows =
        updateRow b.id run.settle r.rows := by
      unfold relayEvent
      split
      · next hacked =>
        refine map_congr_left fun e _ => ?_
        split
        · next he => rw [RelayRun.settle, he, if_pos hacked]
        · rfl
      · next hacked =>
        refine map_congr_left fun e _ => ?_
        split
        · next he => rw [RelayRun.settle, he, if_neg hacked]
        · rfl
    rw [foldl_cons, ih hbatch, hfirst, updateRow, map_map]
    refine map_congr_left fun e _ => ?_
    simp only [Function.comp_apply, RelayRun.advance, map_cons, mem_cons]
    by_cases he : e.id = b.id
    · -- the row of the first event is not touched again
      rw [if_pos he, settle_id, if_neg (he ▸ hb), if_pos (Or.inl he)]
    · rw [if_neg he]
      simp only [he, false_or]

lemma relayLoop_log (relay : Relay) (broker : UUID → Delivery) (batch : List OutboxEventEntity) :
    (batch.foldl (relayEvent relay broker) r).log = r.log ++
      (batch.filter fun e => (broker e.id).acked).map fun e => (e.id, relay.message e) := by
  induction batch generalizing r with
  | nil => simp
  | cons b batch ih =>
    rw [foldl_cons, ih]
    by_cases hacked : (broker b.id).acked = true
    all_goals simp [relayEvent, hacked]

lemma step_eq (s : Outbox) (run : RelayRun) :
    s.step run = (relayLoop run.service.relay run.broker (run.batch s) s).toOutbox := by
  unfold Outbox.step RelayRun.batch
  cases run.service with
  | outbox =>
    by_cases h : getPendingEvents run.batchSize s.rows = []
    · simp [pollAndPublishPendingEvents, h, relayLoop]
    · simp [pollAndPublishPendingEvents, h, RelayService.relay]
  | ledger =>
    by_cases h : getPendingEvents run.batchSize s.rows = []
    · simp [publishPendingEvents, h, relayLoop]
    · simp [publishPendingEvents, h, RelayService.relay]

lemma step_rows (hids : (s.rows.map (·.id)).Nodup) (run : RelayRun) :
    (s.step run).rows = s.rows.map (run.advance (run.batch s)) := by
  rw [step_eq]
  exact relayLoop_rows run _ (batch_nodup hids)

lemma step_ids (hids : (s.rows.map (·.id)).Nodup) (run : RelayRun) :
    (s.step run).rows.map (·.id) = s.rows.map (·.id) := by
  rw [step_rows hids, map_map]
  exact map_congr_left fun e _ => advance_id

def RelayRun.newAcks (run : RelayRun) (s : Outbox) : List UUID :=
  ((run.batch s).filter fun e => (run.broker e.id).acked).map (·.id)

lemma step_acks (s : Outbox) (run : RelayRun) : (s.step run).acks = s.acks ++ run.newAcks s := by
  rw [Outbox.acks, step_eq, relayLoop, relayLoop_log, map_append, map_map]
  rfl

lemma mem_newAcks {id : UUID} :
    id ∈ run.newAcks s ↔ ∃ e ∈ run.batch s, (run.broker e.id).acked = true ∧ e.id = id := by
  simp [RelayRun.newAcks, and_assoc]

end Step

/-! ## All runs -/

def SameKey (service : RelayService) (e1 e2 : OutboxEventEntity) : Prop :=
  service.relay.partitionKey e1 = service.relay.partitionKey e2

def Outbox.Ordered (service : RelayService) (s : Outbox) : Prop :=
  ∀ e1 ∈ s.rows, ∀ e2 ∈ s.rows, SameKey service e1 e2 → e1.createdAt < e2.createdAt →
    e1.id ∈ s.acks → e2.id ∈ s.acks → s.acks.idxOf e1.id < s.acks.idxOf e2.id

/-- The broker acknowledges an event of the batch only with all the earlier events of its key,
those apart that it refuses for the last time. -/
def RelayRun.Safe (service : RelayService) (s : Outbox) (run : RelayRun) : Prop :=
  ∀ e1 ∈ run.batch s, ∀ e2 ∈ run.batch s, SameKey service e1 e2 → e1.createdAt < e2.createdAt →
    (run.broker e2.id).acked = true →
      (run.broker e1.id).acked = true ∨ maxRetries ≤ e1.retryCount + 1

def Outbox.Safe (service : RelayService) (s : Outbox) : List RelayRun → Prop
  | [] => True
  | run :: runs => run.Safe service s ∧ (s.step run).Safe service runs

structure Outbox.Sound (service : RelayService) (s : Outbox) : Prop where
  ids : (s.rows.map (·.id)).Nodup
  settled : ∀ e ∈ s.rows, e.id ∈ s.acks → e.status ≠ .pending
  ordered : ∀ e1 ∈ s.rows, ∀ e2 ∈ s.rows, SameKey service e1 e2 → e1.createdAt < e2.createdAt →
    e2.id ∈ s.acks → (e1.id ∈ s.acks ∧ s.acks.idxOf e1.id < s.acks.idxOf e2.id) ∨
      (e1.id ∉ s.acks ∧ e1.status ≠ .pending)

namespace Outbox

section Sound

variable {service : RelayService} {s : Outbox} {run : RelayRun}

lemma Sound.eq_of_id (h : Sound service s) (he : e ∈ s.rows) (he' : e' ∈ s.rows)
    (hid : e.id = e'.id) : e = e' :=
  inj_on_of_nodup_map h.ids he he' hid

lemma Sound.mem_batch (h : Sound service s) (he : e ∈ s.rows) (hnew : e.id ∈ run.newAcks s) :
    e ∈ run.batch s ∧ (run.broker e.id).acked = true := by
  obtain ⟨b, hb, hacked, hid⟩ := mem_newAcks.mp hnew
  rw [← h.eq_of_id (mem_of_mem_batch hb).1 he hid]
  exact ⟨hb, hacked⟩

lemma idxOf_lt_of_createdAt_lt {l : List OutboxEventEntity} (hids : (l.map (·.id)).Nodup)
    (hsorted : l.Pairwise fun a b => a.createdAt ≤ b.createdAt) (h1 : e1 ∈ l) (h2 : e2 ∈ l)
    (hlt : e1.createdAt < e2.createdAt) :
    (l.map (·.id)).idxOf e1.id < (l.map (·.id)).idxOf e2.id := by
  induction l with
  | nil => cases h1
  | cons a l ih =>
    obtain ⟨ha, hsorted⟩ := pairwise_cons.mp hsorted
    have hinj := inj_on_of_nodup_map hids
    have hne2 : a.id ≠ e2.id := by
      intro hid
      have heq : a = e2 := hinj mem_cons_self h2 hid
      rcases mem_cons.mp h1 with rfl | h1
      · exact hlt.ne (by rw [heq])
      · exact hlt.not_ge (heq ▸ ha e1 h1)
    have h₂' : e2 ∈ l := by
      rcases mem_cons.mp h2 with rfl | h2
      · exact absurd rfl hne2
      · exact h2
    rw [map_cons, idxOf_cons_ne _ hne2]
    by_cases hid : a.id = e1.id
    · rw [← hid, idxOf_cons_self]
      omega
    · rcases mem_cons.mp h1 with rfl | h1
      · exact absurd rfl hid
      · rw [idxOf_cons_ne _ hid]
        have := ih (nodup_cons.mp hids).2 hsorted h1 h₂'
        omega

lemma Sound.newAcks_lt (h : Sound service s) (h1 : e1 ∈ run.batch s) (h2 : e2 ∈ run.batch s)
    (ha1 : (run.broker e1.id).acked = true) (ha2 : (run.broker e2.id).acked = true)
    (hlt : e1.createdAt < e2.createdAt) :
    (run.newAcks s).idxOf e1.id < (run.newAcks s).idxOf e2.id := by
  refine idxOf_lt_of_createdAt_lt ?_ ?_ (mem_filter.mpr ⟨h1, ha1⟩) (mem_filter.mpr ⟨h2, ha2⟩) hlt
  · exact (batch_nodup h.ids).sublist (filter_sublist.map _)
  · exact (batch_sorted _).sublist filter_sublist

lemma Sound.settled_step (h : Sound service s) (he : e ∈ s.rows)
    (hack : e.id ∈ s.acks ++ run.newAcks s) : (run.advance (run.batch s) e).status ≠ .pending := by
  rcases mem_append.mp hack with hack | hnew
  · exact fun hp => h.settled e he hack (pending_of_advance hp)
  · obtain ⟨hb, hacked⟩ := h.mem_batch he hnew
    intro hp
    rw [RelayRun.advance, if_pos (mem_map_of_mem hb)] at hp
    rw [(settle_pending hp).1] at hacked
    cases hacked

lemma Sound.notMem_step (h : Sound service s) (he : e ∈ s.rows) (hack : e.id ∉ s.acks)
    (hp : e.status ≠ .pending) : e.id ∉ s.acks ++ run.newAcks s := by
  intro hmem
  rcases mem_append.mp hmem with hmem | hnew
  · exact hack hmem
  · exact hp (mem_of_mem_batch (h.mem_batch he hnew).1).2

lemma Sound.ordered_step (h : Sound service s) (hsafe : run.Safe service s) (he1 : e1 ∈ s.rows)
    (he2 : e2 ∈ s.rows) (hkey : SameKey service e1 e2) (hlt : e1.createdAt < e2.createdAt)
    (hack : e2.id ∈ s.acks ++ run.newAcks s) : (e1.id ∈ s.acks ++ run.newAcks s ∧
      (s.acks ++ run.newAcks s).idxOf e1.id < (s.acks ++ run.newAcks s).idxOf e2.id) ∨
    (e1.id ∉ s.acks ++ run.newAcks s ∧ (run.advance (run.batch s) e1).status ≠ .pending) := by
  simp only [idxOf_append]
  by_cases hold2 : e2.id ∈ s.acks
  · rw [if_pos hold2]
    rcases h.ordered e1 he1 e2 he2 hkey hlt hold2 with ⟨hold1, hidx⟩ | ⟨hnot, hp⟩
    · rw [if_pos hold1]
      exact Or.inl ⟨mem_append_left _ hold1, hidx⟩
    · exact Or.inr ⟨h.notMem_step he1 hnot hp, fun hp' => hp (pending_of_advance hp')⟩
  · rw [if_neg hold2]
    have hnew2 : e2.id ∈ run.newAcks s := (mem_append.mp hack).resolve_left hold2
    obtain ⟨hb2, hacked2⟩ := h.mem_batch he2 hnew2
    by_cases hold1 : e1.id ∈ s.acks
    · rw [if_pos hold1]
      have := idxOf_lt_length_of_mem hold1
      exact Or.inl ⟨mem_append_left _ hold1, by omega⟩
    · rw [if_neg hold1]
      by_cases hp : e1.status = .pending
      · -- the earlier event is in the batch too, and the run is safe
        have hb1 : e1 ∈ run.batch s := mem_batch_of_lt hb2 he1 hp hlt
        by_cases hacked1 : (run.broker e1.id).acked = true
        · refine Or.inl ⟨mem_append_right _ (mem_newAcks.mpr ⟨e1, hb1, hacked1, rfl⟩), ?_⟩
          have := h.newAcks_lt hb1 hb2 hacked1 hacked2 hlt
          omega
        · have hlast := (hsafe e1 hb1 e2 hb2 hkey hlt hacked2).resolve_left hacked1
          refine Or.inr ⟨fun hmem => ?_, fun hp' => ?_⟩
          · rcases mem_append.mp hmem with hmem | hnew
            · exact hold1 hmem
            · exact hacked1 (h.mem_batch he1 hnew).2
          · rw [RelayRun.advance, if_pos (mem_map_of_mem hb1)] at hp'
            have := (settle_pending hp').2.2
            omega
      · exact Or.inr ⟨h.notMem_step he1 hold1 hp, fun hp' => hp (pending_of_advance hp')⟩

lemma Sound.step (h : Sound service s) (hsafe : run.Safe service s) :
    Sound service (s.step run) where
  ids := by
    rw [step_ids h.ids]
    exact h.ids
  settled := by
    rw [step_rows h.ids, step_acks]
    intro e' he' hack
    obtain ⟨e, he, rfl⟩ := mem_map.mp he'
    rw [advance_id] at hack
    exact h.settled_step he hack
  ordered := by
    rw [step_rows h.ids, step_acks]
    intro e₁' he₁' e₂' he₂' hkey hlt hack
    obtain ⟨e1, he1, rfl⟩ := mem_map.mp he₁'
    obtain ⟨e2, he2, rfl⟩ := mem_map.mp he₂'
    simp only [SameKey, advance_partitionKey, advance_createdAt, advance_id] at hkey hlt hack ⊢
    exact h.ordered_step hsafe he1 he2 hkey hlt hack

lemma Sound.of_runs (h : Sound service s) (hsafe : s.Safe service runs) :
    Sound service (s.run runs) := by
  induction runs generalizing s with
  | nil => exact h
  | cons run runs ih => exact ih (h.step hsafe.1) hsafe.2

lemma Sound.inOrder (h : Sound service s) : Ordered service s := by
  intro e1 he1 e2 he2 hkey hlt hack1 hack2
  rcases h.ordered e1 he1 e2 he2 hkey hlt hack2 with ⟨-, hidx⟩ | ⟨hnot, -⟩
  · exact hidx
  · exact absurd hack1 hnot

def publishAll (n : Nat) : RelayRun := ⟨.outbox, n, fun _ => ⟨true, 0⟩⟩

lemma safe_publishAll (service : RelayService) (s : Outbox) :
    (publishAll n).Safe service s := fun _ _ _ _ _ _ _ => Or.inl rfl

lemma Sound.out_of_order (h : Sound service s) (hnot : ¬ run.Safe service s) :
    ¬ Ordered service ((s.step run).step (publishAll s.rows.length)) := by
  simp only [RelayRun.Safe, not_forall, not_or] at hnot
  obtain ⟨e1, hb1, e2, hb2, hkey, hlt, hacked2, hacked1, hretry⟩ := hnot
  obtain ⟨he1, hp1⟩ := mem_of_mem_batch hb1
  obtain ⟨he2, hp2⟩ := mem_of_mem_batch hb2
  have hids : ((s.step run).rows.map (·.id)).Nodup := by
    rw [step_ids h.ids]
    exact h.ids
  -- the failed event is pending after the run, and not acknowledged
  have hnot : e1.id ∉ (s.step run).acks := by
    rw [step_acks]
    intro hmem
    rcases mem_append.mp hmem with hmem | hnew
    · exact h.settled e1 he1 hmem hp1
    · exact hacked1 (h.mem_batch he1 hnew).2
  have hack2 : e2.id ∈ (s.step run).acks := by
    rw [step_acks]
    exact mem_append_right _ (mem_newAcks.mpr ⟨e2, hb2, hacked2, rfl⟩)
  have hpending : (run.advance (run.batch s) e1).status = .pending := by
    rw [RelayRun.advance, if_pos (mem_map_of_mem hb1), RelayRun.settle, if_neg hacked1]
    exact (if_neg hretry).trans hp1
  have hmem : ∀ e ∈ s.rows, run.advance (run.batch s) e ∈ (s.step run).rows := by
    intro e he
    rw [step_rows h.ids]
    exact mem_map_of_mem he
  have hack1 : e1.id ∈ (publishAll s.rows.length).newAcks (s.step run) := by
    refine mem_newAcks.mpr ⟨_, mem_batch_of_length_le ?_ (hmem e1 he1) hpending, rfl, advance_id⟩
    rw [step_rows h.ids, length_map]
    exact le_rfl
  intro hordered
  have hidx := hordered _ (by rw [step_rows hids]; exact mem_map_of_mem (hmem e1 he1))
    _ (by rw [step_rows hids]; exact mem_map_of_mem (hmem e2 he2))
  simp only [SameKey, advance_partitionKey, advance_createdAt, advance_id] at hidx
  rw [step_acks, idxOf_append, idxOf_append, if_neg hnot, if_pos hack2] at hidx
  have hlt' := hidx hkey hlt (mem_append_right _ hack1) (mem_append_left _ hack2)
  have := idxOf_lt_length_of_mem hack2
  omega

lemma sound_new (service : RelayService) {rows : List OutboxEventEntity}
    (hids : (rows.map (·.id)).Nodup) : Sound service { rows := rows } where
  ids := hids
  settled e _ hack := by cases hack
  ordered e1 _ e2 _ _ _ hack := by cases hack

lemma run_append (s : Outbox) (runs rest : List RelayRun) :
    s.run (runs ++ rest) = (s.run runs).run rest := foldl_append

/-- **The order of a key.** The rows have distinct ids; the services run one after the other, with
any batch sizes and any failures of the broker. If every run is safe, two events with one key that
are both acknowledged are so in the order of their creation. And a further run keeps this for the
safe runs after it if and only if it is safe itself. -/
theorem acknowledged_in_order (service : RelayService) (rows : List OutboxEventEntity)
    (hids : (rows.map (·.id)).Nodup) (runs : List RelayRun)
    (hsafe : Outbox.Safe service { rows := rows } runs) :
    Ordered service (Outbox.run { rows := rows } runs) ∧
    ∀ run : RelayRun,
      (∀ rest, Outbox.Safe service (Outbox.run { rows := rows } (runs ++ [run])) rest →
        Ordered service (Outbox.run { rows := rows } (runs ++ run :: rest))) ↔
      run.Safe service (Outbox.run { rows := rows } runs) := by
  have hsound := (sound_new service hids).of_runs hsafe
  refine ⟨hsound.inOrder, fun run => ⟨fun hall => ?_, fun hrun rest hrest => ?_⟩⟩
  · by_contra hnot
    refine hsound.out_of_order hnot ?_
    have := hall [publishAll (Outbox.run { rows := rows } runs).rows.length]
      ⟨safe_publishAll service _, trivial⟩
    rw [run_append] at this
    exact this
  · rw [run_append] at hrest ⊢
    exact ((hsound.step hrun).of_runs hrest).inOrder

/-! ### Two events of one key -/

def twoEvents : List OutboxEventEntity :=
  [⟨1, "created", "order", "7", ⟨none, "1"⟩, .pending, 0, 10, none⟩,
    ⟨2, "paid", "order", "7", ⟨none, "2"⟩, .pending, 0, 20, none⟩]

/-- The broker is down in the first run, and up in the second. -/
theorem acknowledged_in_order_later :
    (Outbox.run { rows := twoEvents } [⟨.outbox, 50, fun _ => ⟨false, 30⟩⟩, publishAll 50]).acks =
      [1, 2] ∧
    Ordered .outbox
      (Outbox.run { rows := twoEvents } [⟨.outbox, 50, fun _ => ⟨false, 30⟩⟩, publishAll 50]) := by
  refine ⟨by decide +kernel, (acknowledged_in_order .outbox twoEvents (by decide) _ ?_).1⟩
  refine ⟨fun _ _ _ _ _ _ hacked => ?_, safe_publishAll .outbox _, trivial⟩
  cases hacked

/-- The broker fails for the first event only. The next run publishes it, after the second one. -/
theorem acknowledged_out_of_order :
    (Outbox.run { rows := twoEvents } [⟨.outbox, 50, fun id => ⟨id = 2, 30⟩⟩, publishAll 50]).acks =
      [2, 1] ∧
    (Outbox.run { rows := twoEvents } [⟨.ledger, 50, fun id => ⟨id = 2, 30⟩⟩,
      ⟨.ledger, 50, fun _ => ⟨true, 40⟩⟩]).acks = [2, 1] := by
  decide +kernel

end Sound

end Outbox

end CleanArch
