import CleanArch.Locks.MultiLock
import CleanArch.Relations.Acyclic
import Mathlib.Data.List.Dedup

/-!
# The order in which locks are taken

`acquire_multiple` sorts the names that it is given and then takes the lock of each: the Redis key
of a name is the name itself if it starts with `lock:`, and `lock:` before it otherwise. Sorted
names are sorted keys only if all names have the prefix, or none has it. `Precedes`: some call
requests one key before another.
-/

namespace CleanArch
namespace Locks

open Assoc Async List Prog Protocol Relation Relations Sys

lemma mem_uniqueSortedKeys : r ∈ uniqueSortedKeys resourceKeys ↔ r ∈ resourceKeys := by
  simp [uniqueSortedKeys]

lemma uniqueSortedKeys_sorted :
    (uniqueSortedKeys resourceKeys).Pairwise fun a b => a.toList < b.toList := by
  have hle : (uniqueSortedKeys resourceKeys).Pairwise fun a b => a.toList ≤ b.toList := by
    exact pairwise_insertionSort _ _
  have hne : (uniqueSortedKeys resourceKeys).Nodup :=
    (perm_insertionSort _ _).nodup_iff.mpr (nodup_dedup _)
  refine (hle.and hne).imp fun {a b} hab => lt_of_le_of_ne hab.1 fun heq => hab.2 ?_
  exact String.toList_injective heq

/-! ## The order of the keys -/

section Order

variable {resourceKeys : Tid → List String}

/-- Some call requests key `k` before key `k'`. -/
def Precedes (resourceKeys : Tid → List String) (k k' : String) : Prop :=
  ∃ t, ∃ r ∈ resourceKeys t, ∃ r' ∈ resourceKeys t,
    r.toList < r'.toList ∧ lockKey r = k ∧ lockKey r' = k'

/-- There is one total order on the keys in which every call requests its keys in increasing
order. -/
def Increasing (resourceKeys : Tid → List String) : Prop :=
  ∃ lt : String → String → Prop, IsStrictTotalOrder String lt ∧
    ∀ t, ((uniqueSortedKeys (resourceKeys t)).map lockKey).Pairwise lt

lemma pairwise_keys_iff (lt : String → String → Prop) :
    ((uniqueSortedKeys (resourceKeys t)).map lockKey).Pairwise lt ↔
      ∀ r ∈ resourceKeys t, ∀ r' ∈ resourceKeys t, r.toList < r'.toList →
        lt (lockKey r) (lockKey r') := by
  rw [pairwise_map, pairwise_iff_of_sorted (fun _ _ => lt_asymm)
    (uniqueSortedKeys_sorted)]
  simp only [mem_uniqueSortedKeys]

lemma increasing_iff : Increasing resourceKeys ↔ Acyclic (Precedes resourceKeys) := by
  rw [← exists_strictTotalOrder_iff]
  refine exists_congr fun lt => and_congr_right fun _ => ?_
  simp only [pairwise_keys_iff]
  constructor
  · rintro h k k' ⟨t, r, hr, r', hr', hlt, rfl, rfl⟩
    exact h t r hr r' hr' hlt
  · exact fun h t r hr r' hr' hlt => h _ _ ⟨t, r, hr, r', hr', hlt, rfl, rfl⟩

end Order

/-! ## Runs -/

/-- Calls of `acquire_multiple`, with locks that can expire. -/
def expiringLockSys (timeout : String) (tries : Tid → String → Nat)
    (resourceKeys : Tid → List String) : Sys where
  toMachine := lockMachine
  Env := String
  env k s := erase s k
  A := Unit
  prog t := acquireMultiple timeout (tries t) (resourceKeys t)
  loc _ := ()

/-- Between two steps of a call, its locks can only vanish; it requests a key when it holds only
such as it has requested before. -/
def orderProtocol (resourceKeys : Tid → List String) : Protocol lockMachine where
  rely t s s' := ∀ k r, find s' k = some ⟨t, r⟩ → find s k = some ⟨t, r⟩
  good t c _ s _ := ∀ r, c = .setNx r → ∀ k r', find s k = some ⟨t, r'⟩ →
    k = lockKey r' ∧ Precedes resourceKeys (lockKey r') (lockKey r)
  refl _ _ _ _ h := h
  trans _ _ _ _ h1 h2 k r h := h1 k r (h2 k r h)

section Wp

variable {t : Tid} {acquired : List String} {s : Redis}

lemma Owns.rely (h : Owns t acquired s) (hr : (orderProtocol resourceKeys).rely t s s') :
    Owns t acquired s' :=
  fun k r hk => h k r (hr k r hk)

lemma order_rely (c : LockCmd) (o : Delivery) (s : Redis) (u : Tid) (hu : u ≠ t) :
    (orderProtocol resourceKeys).rely u s (c.exec t o s).2 :=
  fun k r hk => (c.exec_sameLocks hu o s k r).mp hk

lemma order_keeps (hc : ∀ r, c ≠ .setNx r) (o : Delivery) (s : Redis) :
    (orderProtocol resourceKeys).Keeps t c o l s :=
  ⟨fun r hr => absurd hr (hc r), trivial, order_rely c o s⟩

lemma wp_noRequest {α : Type} {p : LockProg α} (hp : p.Only (fun c => ∀ r, c ≠ .setNx r)) :
    (orderProtocol resourceKeys).wp t p (fun _ _ _ => True) l s := by
  refine wp_mono (wp_within (I := fun _ _ => True) (fun _ _ _ _ _ => trivial)
    (fun c o l s hc _ _ _ => ⟨order_keeps hc o s, trivial, fun _ _ => trivial⟩) hp trivial) ?_
  exact fun _ _ _ _ _ => trivial

lemma within_releaseAll (acquired : List String) :
    (releaseAll acquired).Only (fun c => ∀ r, c ≠ .setNx r) := by
  induction acquired with
  | nil => trivial
  | cons r rs ih =>
    refine within_bind (within_handle (within_call nofun) ?_) fun _ => ih
    intro e _
    cases e <;> trivial

lemma within_rollback {α : Type} (acquired : List String) :
    (rollback acquired e : LockProg α).Only (fun c => ∀ r, c ≠ .setNx r) := by
  cases e with
  | cancelled => trivial
  | exception => exact within_bind (within_releaseAll acquired) fun _ => trivial
  | lockAcquisitionTimeout =>
    exact within_bind (within_releaseAll acquired) fun _ => trivial

lemma wp_rollback (hQ : (orderProtocol resourceKeys).Stable t Q) (h : ∀ e l s, Q (.error e) l s) :
    (orderProtocol resourceKeys).wp t (rollback acquired e) Q l s := by
  have hall : ∀ e, (orderProtocol resourceKeys).wp t
      ((releaseAll acquired).bind fun _ => .raise e) Q l s := fun e =>
    wp_bind (wp_mono (wp_noRequest (within_releaseAll acquired)) fun x l s _ _ => by cases x with
        | ok => exact hQ.raise (h e l s)
        | error e' => exact h e' l s)
  cases e with
  | cancelled => exact hQ.raise (h _ _ _)
  | exception | lockAcquisitionTimeout => exact hall _

/-- What `acquire` leaves the call with. -/
def Acquired (t : Tid) (acquired : List String) (r : Except Raised Unit) (_ : Unit) (s : Redis) :
    Prop :=
  match r with
  | .ok _ => Owns t acquired s
  | .error _ => True

lemma stable_acquired : (orderProtocol resourceKeys).Stable t (Acquired t acquired) := by
  intro r l s s' h hr
  cases r with
  | ok => exact Owns.rely h hr.rely
  | error => trivial

lemma wp_try (hbefore : ∀ r' ∈ acquired, Precedes resourceKeys (lockKey r') (lockKey r))
    (h : Owns t acquired s) (hk : ∀ b s', Owns t (if b then r :: acquired else acquired) s' →
      (orderProtocol resourceKeys).wp t (k b) (Acquired t (r :: acquired)) () s') :
    (orderProtocol resourceKeys).wp t ((redisSet r).bind k) (Acquired t (r :: acquired)) () s := by
  refine stable_acquired.call_bind fun s' o hr _ _ => ⟨⟨?_, trivial, order_rely _ o s'⟩, ?_⟩
  · rintro _ ⟨⟩ key r' hkey
    obtain ⟨hlock, hmem⟩ := h key r' (hr key r' hkey)
    exact ⟨hlock, hbefore r' hmem⟩
  · have hs' := h.rely hr
    cases o with
    | done | raises => exact hk _ _ (setIfAbsent_owns hs')
    | cancel => trivial

lemma wp_acquire_ordered (hbefore : ∀ r' ∈ acquired, Precedes resourceKeys (lockKey r') (lockKey r))
    (h : Owns t acquired s) :
    (orderProtocol resourceKeys).wp t (acquire timeout r tries) (Acquired t (r :: acquired)) ()
      s := by
  induction tries generalizing s with
  | zero =>
    refine wp_try hbefore h fun b s' hs' => ?_
    cases b with
    | true => exact stable_acquired.ret hs'
    | false => exact stable_acquired.raise trivial
  | succ tries ih =>
    refine wp_try hbefore h fun b s' hs' => ?_
    cases b with
    | true => exact stable_acquired.ret hs'
    | false =>
      refine stable_acquired.call_bind fun s'' o hr _ _ =>
        ⟨order_keeps (fun _ h => by cases h) o s'', ?_⟩
      cases o with
      | done | raises => exact ih (hs'.rely hr)
      | cancel => trivial

lemma wp_ordered {keys : List String} (h : Owns t acquired s)
    (hbefore : ∀ r' ∈ acquired, ∀ r ∈ keys, Precedes resourceKeys (lockKey r') (lockKey r))
    (hkeys : keys.Pairwise fun r' r => Precedes resourceKeys (lockKey r') (lockKey r)) :
    (orderProtocol resourceKeys).wp t (acquireMultipleFrom timeout tries keys acquired)
      (fun _ _ _ => True) () s := by
  induction keys generalizing acquired s with
  | nil =>
    refine wp_noRequest (within_bind (within_handle ?_ ?_) fun _ => ?_)
    · exact within_call nofun
    · exact fun e _ => within_rollback acquired
    · exact within_releaseAll acquired
  | cons r rest ih =>
    obtain ⟨hr, hrest⟩ := pairwise_cons.mp hkeys
    have hacquire : (orderProtocol resourceKeys).wp t (acquire timeout r (tries r))
        (Acquired t (r :: acquired)) () s :=
      wp_acquire_ordered (fun r' hr' => hbefore r' hr' r mem_cons_self) h
    refine wp_bind (wp_handle (wp_mono hacquire fun x l s' _ hx => ?_))
    cases x with
    | ok =>
      refine ih hx (fun r' hr' r'' hr'' => ?_) hrest
      rcases mem_cons.mp hr' with rfl | hr'
      · exact hr r'' hr''
      · exact hbefore r' hr' r'' (mem_cons_of_mem _ hr'')
    | error =>
      refine wp_rollback (fun x l s s' hx hrely => ?_) fun _ _ _ => trivial
      cases x with
      | ok => exact wp_stable hx hrely.rely
      | error => trivial

end Wp

/-! ### Waiting -/

section Waiting

variable {timeout : String} {tries : Tid → String → Nat} {resourceKeys : Tid → List String}

/-- The name whose lock the call wants next: it is about to try, or it pauses between two tries. -/
def wanted (c : (expiringLockSys timeout tries resourceKeys).Config) (t : Tid) : Option String :=
  match (c.thr t).2.next? with
  | some (.setNx r) => some r
  | some .sleep =>
    match ((step c (.turn t .done)).thr t).2.next? with
    | some (.setNx r) => some r
    | _ => none
  | _ => none

/-- The call wants a lock that call `u` holds. -/
def WaitsFor (c : (expiringLockSys timeout tries resourceKeys).Config) (t u : Tid) : Prop :=
  ∃ r r', wanted c t = some r ∧ find c.sh (lockKey r) = some ⟨u, r'⟩

lemma find_of_expired {k key : String} (h : find (erase s k) key = some token) :
    find s key = some token := by
  rw [find_erase] at h
  split at h
  · cases h
  · exact h

lemma holds_run (es : List (expiringLockSys timeout tries resourceKeys).Event) :
    Holds (S := expiringLockSys timeout tries resourceKeys) (orderProtocol resourceKeys)
      (fun _ _ _ _ => True) (run (start []) es) := by
  have hstart : Holds (S := expiringLockSys timeout tries resourceKeys)
      (orderProtocol resourceKeys) (fun _ _ _ _ => True) (start []) := by
    refine Holds.start trivial fun t => wp_ordered (nofun) (nofun) ?_
    refine (pairwise_iff_of_sorted (fun _ _ => lt_asymm) (uniqueSortedKeys_sorted)).mpr ?_
    intro r hr r' hr' hlt
    exact ⟨t, r, mem_uniqueSortedKeys.mp hr, r', mem_uniqueSortedKeys.mp hr', hlt, rfl, rfl⟩
  exact sound_of_forall (fun _ _ _ _ _ => trivial)
    (fun k s _ => ⟨trivial, fun t key r => find_of_expired⟩) hstart es

lemma precedes_wanted (hc : Holds (S := expiringLockSys timeout tries resourceKeys)
      (orderProtocol resourceKeys) (fun _ _ _ _ => True) c) (hr : wanted c t = some r)
    (hk : find c.sh k = some ⟨t, r'⟩) : Precedes resourceKeys k (lockKey r) := by
  unfold wanted at hr
  split at hr
  · next r1 hnext =>
    cases hr
    obtain ⟨rfl, hpre⟩ := hc.good (o := .done) hnext trivial r rfl k r' hk
    exact hpre
  · next hnext =>
    -- after the pause, Redis is as before
    have hturn := hc.turn (t := t) (o := Delivery.done) fun _ _ => trivial
    have hsame : (step c (.turn t .done)).sh = c.sh := by
      obtain ⟨k', hp⟩ := awaits_of_next hnext
      exact (congrArg Config.sh (step_await hp)).trans rfl
    split at hr
    · next r1 hnext' =>
      cases hr
      rw [← hsame] at hk
      obtain ⟨rfl, hpre⟩ := hturn.good (o := .done) hnext' trivial r rfl k r' hk
      exact hpre
    · cases hr
  · cases hr

lemma waitsFor_acyclic (h : Acyclic (Precedes resourceKeys))
    (es : List (expiringLockSys timeout tries resourceKeys).Event) :
    Acyclic (WaitsFor (run (start []) es)) := by
  refine h.of_map (f := fun t => lockKey ((wanted (run (start []) es) t).getD "")) ?_
  rintro t u v ⟨r, r', hr, hheld⟩ ⟨r1, r₁', hr1, -⟩
  simp only [hr, hr1, Option.getD_some]
  exact precedes_wanted (holds_run es) hr1 hheld

end Waiting

/-- There is one order on the Redis keys in which every call requests its keys, and so no run has a
cycle of waiting calls (a call that waits for itself included), if and only if there is no cycle of
names: `r1 < r₁'` in one list, `r2 < r₂'` in one list, …, where the key of each `rᵢ'` is that of
the next `rᵢ`. -/
theorem lock_order_iff (timeout : String) (tries : Tid → String → Nat)
    (resourceKeys : Tid → List String) :
    (Increasing resourceKeys ∧ ∀ es : List (expiringLockSys timeout tries resourceKeys).Event,
          Acyclic (WaitsFor (run (start []) es))) ↔
      Acyclic (Precedes resourceKeys) :=
  ⟨fun h => increasing_iff.mp h.1, fun h => ⟨increasing_iff.mpr h, waitsFor_acyclic h⟩⟩

def mixedNames : Tid → List String
  | 0 => ["m", "lock:z"]
  | 1 => ["m", "z"]
  | _ => []

/-- The first call takes `lock:z`, the second one `lock:m`. -/
def bothTakeOne : List (expiringLockSys "3.0" (fun _ _ => 1) mixedNames).Event :=
  [.turn 0 .done, .turn 1 .done]

/-- Each waits for the other; and a call with a name and its key waits for itself. -/
theorem mixed_names_deadlock : (WaitsFor (run (start []) bothTakeOne) 0 1 ∧
        WaitsFor (run (start []) bothTakeOne) 1 0) ∧
      ¬ Increasing mixedNames ∧ ¬ Increasing fun _ => ["a", "lock:a"] := by
  refine ⟨⟨⟨"m", "m", by decide +kernel, by decide +kernel⟩,
    ⟨"z", "lock:z", by decide +kernel, by decide +kernel⟩⟩, fun h => ?_, fun h => ?_⟩
  · refine increasing_iff.mp h "lock:z" (.tail (.single ?_) (b := "lock:m") ?_)
    · exact ⟨0, "lock:z", by simp [mixedNames], "m", by simp [mixedNames], by decide +kernel,
        by decide +kernel, by decide +kernel⟩
    · exact ⟨1, "m", by simp [mixedNames], "z", by simp [mixedNames], by decide +kernel,
        by decide +kernel, by decide +kernel⟩
  · refine increasing_iff.mp h "lock:a" (.single ?_)
    exact ⟨0, "a", by simp, "lock:a", by simp, by decide +kernel, by decide +kernel,
      by decide +kernel⟩

end Locks
end CleanArch
