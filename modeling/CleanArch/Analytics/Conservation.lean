import CleanArch.Analytics.Views
import CleanArch.Async.Ledger
import CleanArch.Async.Rely
import Mathlib.Algebra.BigOperators.Pi
import Mathlib.Algebra.BigOperators.Ring.Finset

/-!
# No view is lost or counted twice

The views of a user are the persistent ones and the pending ones (`ViewStore.total`). Two failures
break their conservation (`ViewSafe`):

- `SADD` raises. `HINCRBY` has counted the view already, and the fallback counts it again.
- The batch write of a sync raises. Its transaction has emptied the hash, and nothing puts the
  counts back.
-/

namespace CleanArch

open Async List Protocol Sys

/-! ## The total -/

def ViewStore.total (s : ViewStore) (userId : Int) : Int :=
  ((Assoc.find s.views userId).getD 0 : Int) + ((Assoc.find s.pending userId).getD 0 : Int)

def viewCounts (viewsMap : List (Int × Nat)) (userId : Int) : Int :=
  (((viewsMap.filter fun p => p.1 = userId).map Prod.snd).sum : Nat)

lemma viewCounts_cons : viewCounts (p :: l) userId =
      (if p.1 = userId then (p.2 : Int) else 0) + viewCounts l userId := by
  unfold viewCounts
  by_cases hid : p.1 = userId
  all_goals simp [hid]

lemma viewCounts_absent (h : ∀ p ∈ l, p.1 ≠ userId) : viewCounts l userId = 0 := by
  have hnone : l.filter (fun p => decide (p.1 = userId)) = [] :=
    filter_eq_nil_iff.mpr fun p hp => by simpa using h p hp
  simp [viewCounts, hnone]

lemma viewCounts_of_distinct (h : Assoc.Distinct l) :
    viewCounts l userId = ((Assoc.find l userId).getD 0 : Nat) := by
  induction l with
  | nil => rfl
  | cons p l ih =>
    obtain ⟨hp, hl⟩ := pairwise_cons.mp h
    rw [viewCounts_cons, Assoc.find_cons]
    by_cases hid : p.1 = userId
    · have hrest : ∀ q ∈ l, q.1 ≠ userId := fun q hq hq' =>
        beq_eq_false_iff_ne.mp (hp q hq) (hid.trans hq'.symm)
      simp [hid, viewCounts_absent hrest]
    · simp [hid, ih hl]

lemma viewCounts_one : viewCounts [(userId, 1)] = Pi.single userId 1 := by
  funext id
  rw [viewCounts_cons]
  by_cases hid : userId = id
  · subst hid
    simp [viewCounts]
  · simp [viewCounts, hid]

lemma foldl_addPositive (hl : Assoc.Distinct l) (hm : ∀ p ∈ m, ∀ q ∈ l, p.1 ≠ q.1) :
    l.foldl addPositive m = m ++ l.filter fun p => p.2 > 0 := by
  induction l generalizing m with
  | nil => simp
  | cons q l ih =>
    obtain ⟨hq, hl⟩ := pairwise_cons.mp hl
    rw [foldl_cons, addPositive, filter_cons]
    have hm' : ∀ p ∈ m, ∀ q ∈ l, p.1 ≠ q.1 := fun p hp r hr => hm p hp r (mem_cons_of_mem _ hr)
    by_cases hpos : q.2 > 0
    · have habsent : ∀ p ∈ m, (p.1 == q.1) = false := fun p hp =>
        beq_eq_false_iff_ne.mpr (hm p hp q mem_cons_self)
      rw [if_pos hpos, Assoc.set_of_absent habsent, ih hl]
      · simp [hpos]
      · intro p hp r hr
        rcases mem_append.mp hp with hp | hp
        · exact hm' p hp r hr
        · rw [mem_singleton.mp hp]
          exact beq_eq_false_iff_ne.mp (hq r hr)
    · rw [if_neg hpos, ih hl hm']
      simp [hpos]

lemma viewCounts_positive : viewCounts (l.filter fun p => p.2 > 0) = viewCounts l := by
  funext userId
  induction l with
  | nil => rfl
  | cons p l ih =>
    rw [viewCounts_cons, filter_cons]
    by_cases hpos : p.2 > 0
    · simp only [hpos, decide_true, if_true, viewCounts_cons, ih]
    · simp [ih, Nat.eq_zero_of_not_pos hpos]

lemma viewCounts_toViewsMap (h : Assoc.Distinct l) : viewCounts (toViewsMap l) = viewCounts l := by
  rw [toViewsMap, foldl_addPositive h fun p hp => by cases hp]
  exact viewCounts_positive

def ViewCmd.change (s : ViewStore) : ViewCmd → Int → Int
  | .hincrby userId => Pi.single userId 1
  | .sadd _ => 0
  | .execute => -viewCounts s.pending
  | .incrementViewsBatch viewsMap => viewCounts viewsMap

lemma ViewCmd.total_effect (s : ViewStore) (c : ViewCmd) :
    (c.effect s).2.total = s.total + c.change s := by
  funext id
  cases c with
  | hincrby userId =>
    simp only [effect, ViewStore.total, change, Assoc.find_set, Pi.add_apply]
    by_cases hid : userId = id
    · subst hid
      simp
      omega
    · simp [hid]
  | sadd =>
    simp only [effect, change]
    split <;> simp [ViewStore.total]
  | execute =>
    simp only [effect, ViewStore.total, change, Pi.add_apply, Pi.neg_apply,
      viewCounts_of_distinct s.distinct]
    simp [Assoc.find]
  | incrementViewsBatch =>
    simp only [effect, ViewStore.total, change, Pi.add_apply, viewCounts,
      UserRepository.getViews_foldl]
    omega

lemma ViewCmd.exec_raises {c : ViewCmd} (h : o.raises = true) :
    c.exec o s = (.error c.error, (), s) := if_pos h

lemma ViewCmd.exec_ok {c : ViewCmd} (h : o.raises = false) :
    c.exec o s = (.ok (c.effect s).1, (), (c.effect s).2) := by
  rw [exec, h]
  rfl

lemma ViewCmd.total_exec (o : ViewAnswer) (s : ViewStore) (c : ViewCmd) :
    (c.exec o s).2.2.total - s.total = if o.raises then 0 else c.change s := by
  cases h : o.raises with
  | true => rw [exec_raises h, sub_self, if_pos rfl]
  | false => rw [exec_ok h, total_effect, add_sub_cancel_left, if_neg Bool.false_ne_true]

/-! ## The calls -/

section Calls

variable (calls : Tid → ViewCall)

@[reducible] def bookedViews : Sys :=
  (viewSys calls).observed ((viewSys calls).bookings ViewStore.total)

/-- What a call that has ended has added: one view for a `record_view` that returned. -/
def ViewCall.added {α : Type} (call : ViewCall) (r : Except ViewError α) : Int → Int :=
  match call, r with
  | .recordView userId, .ok _ => Pi.single userId 1
  | _, _ => 0

lemma ViewCall.added_apply {α : Type} (call : ViewCall) (r : Except ViewError α) :
    call.added r userId =
      if call = .recordView userId ∧ (some r).any Except.isOk then 1 else 0 := by
  cases call with
  | sync => rfl
  | recordView id =>
    cases r with
    | error => simp [added, Except.isOk, Except.toBool]
    | ok =>
      by_cases hid : id = userId
      · subst hid
        simp [added, Except.isOk, Except.toBool]
      · simp [added, hid]

def ViewCmd.mustSucceed (call : ViewCall) : ViewCmd → Bool
  | .sadd _ => true
  | .incrementViewsBatch _ => call = .sync
  | _ => false

def viewProtocol : Protocol (bookedViews calls).toMachine where
  rely t w w' := w'.2 t = w.2 t
  ok t c _ _ o := c.mustSucceed (calls t) = true → o.raises = false
  refl _ _ := rfl
  trans _ _ _ _ h1 h2 := h2.trans h1

variable {calls} {t : Tid} {w : ViewStore × (Tid → Int → Int)}

def AddedPost (calls : Tid → ViewCall) (t : Tid) (r : Except ViewError ViewResult) (_ : Unit)
    (w : ViewStore × (Tid → Int → Int)) : Prop :=
  w.2 t = (calls t).added r

lemma addedPost_stable : (viewProtocol calls).Stable t (AddedPost calls t) :=
  fun _ _ _ _ h hr => Eq.trans hr.rely h

lemma viewProtocol_keeps (c : ViewCmd) (o : ViewAnswer) (l : Unit) :
    (viewProtocol calls).Keeps t c o l w :=
  ⟨trivial, trivial, fun _ hu => Function.update_of_ne hu _ _⟩

lemma added_exec (calls : Tid → ViewCall) (t : Tid) (w : ViewStore × (Tid → Int → Int))
    (c : ViewCmd) (o : ViewAnswer) (l : Unit) :
    ((bookedViews calls).exec t c o l w).2.2.2 t =
      w.2 t + if o.raises then 0 else c.change w.1 := by
  rw [← ViewCmd.total_exec]
  exact Function.update_self _ _ _

lemma wp_view {Q : Except ViewError c.Res → Unit → _ → Prop}
    (hraise : c.mustSucceed (calls t) = false → ∀ w', w'.2 t = w.2 t → Q (.error c.error) () w')
    (hok : ∀ s w', w'.2 t = w.2 t + c.change s → Q (.ok (c.effect s).1) () w') :
    (viewProtocol calls).wp t (view c) Q () w := by
  refine wp_call fun w1 o hr _ ho => ⟨viewProtocol_keeps c o (), fun w2 hr2 _ => ?_⟩
  have hadd := added_exec calls t w1 c o ()
  have hw1 : w1.2 t = w.2 t := hr
  have hw2 := Eq.trans hr2 hadd
  cases hraises : o.raises with
  | true =>
    have hmay : c.mustSucceed (calls t) = false := by
      by_contra hmust
      have hok := ho (Bool.eq_true_of_not_eq_false hmust)
      rw [hraises] at hok
      cases hok
    simp only [hraises, if_true, add_zero, hw1] at hw2
    simpa only [ViewCmd.exec_raises hraises] using hraise hmay w2 hw2
  | false =>
    simp only [hraises, Bool.false_eq_true, if_false, hw1] at hw2
    simpa only [ViewCmd.exec_ok hraises] using hok w1.1 w2 hw2

lemma wp_recordInRedis (userId : Int) (hw : w.2 t = 0) :
    (viewProtocol calls).wp t (recordInRedis userId)
      (fun r _ w => w.2 t = (ViewCall.recordView userId).added r) () w := by
  refine wp_bind (wp_view (fun _ w1 h1 => h1.trans hw) fun s w1 h1 => ?_)
  have hcount : w1.2 t = Pi.single userId 1 := by rw [h1, hw, zero_add]; rfl
  refine wp_bind (wp_view (nofun) fun s w2 h2 => ?_)
  refine fun w3 h3 _ => Eq.trans h3 ?_
  rw [h2, hcount]
  exact add_zero _

lemma wp_recordView (hcall : calls t = .recordView userId) (hw : w.2 t = 0) :
    (viewProtocol calls).wp t (recordView userId) (AddedPost calls t) () w := by
  refine wp_bind (wp_attempt (wp_mono (wp_recordInRedis userId hw) fun r _ w1 _ h1 => ?_))
  cases r with
  | ok =>
    refine addedPost_stable.ret ?_
    rw [AddedPost, h1, hcall]
    rfl
  | error =>
    refine wp_bind (wp_view (fun _ w2 h2 => ?_) fun s w2 h2 => addedPost_stable.ret ?_)
    · have hadd : w2.2 t = 0 := h2.trans h1
      simp only [AddedPost, hadd, hcall, ViewCall.added]
    · have hadd : w2.2 t = Pi.single userId 1 := by
        rw [h2, h1, ← viewCounts_one]
        exact zero_add _
      rw [AddedPost, hadd, hcall]
      rfl

lemma wp_flushViews (hcall : calls t = .sync) (hw : w.2 t = -viewCounts viewsMap) :
    (viewProtocol calls).wp t (flushViews viewsMap) (AddedPost calls t) () w := by
  refine wp_ite (fun hempty => ?_) fun _ => ?_
  · refine addedPost_stable.ret ?_
    rw [AddedPost, hw, hcall, isEmpty_iff.mp hempty]
    rfl
  · have hmust : ViewCmd.mustSucceed (calls t) (.incrementViewsBatch viewsMap) = true := by
      simp [ViewCmd.mustSucceed, hcall]
    refine wp_bind (wp_view (fun h => ?_) fun s w1 h1 => addedPost_stable.ret ?_)
    · rw [hmust] at h
      cases h
    · rw [AddedPost, h1, hw, hcall]
      exact neg_add_cancel (viewCounts viewsMap)

lemma wp_sync (hcall : calls t = .sync) (hw : w.2 t = 0) :
    (viewProtocol calls).wp t syncPendingViewsToDb (AddedPost calls t) () w := by
  refine wp_bind (wp_attempt (wp_view (fun _ w1 h1 => ?_) fun s w1 h1 => ?_))
  · refine addedPost_stable.ret ?_
    rw [AddedPost, h1, hw, hcall]
    rfl
  · refine wp_flushViews hcall ?_
    rw [h1, hw, zero_add]
    exact congrArg Neg.neg (viewCounts_toViewsMap s.distinct).symm

lemma wp_viewCall (hw : w.2 t = 0) :
    (viewProtocol calls).wp t (calls t).prog (AddedPost calls t) () w := by
  cases hcall : calls t with
  | recordView => exact wp_recordView hcall hw
  | sync => exact wp_sync hcall hw

end Calls

/-! ## Runs -/

section Runs

variable (calls : Tid → ViewCall) (s : ViewStore) (es : List (viewSys calls).Event)

def viewRun : (viewSys calls).Config := run (start s) es

def bookedRun : (bookedViews calls).Config :=
  run (start (s, fun _ => 0))
    (es.map (Event.observe (S := viewSys calls) ((viewSys calls).bookings ViewStore.total)))

lemma erase_bookedRun : erase (bookedRun calls s es) = viewRun calls s es :=
  erase_run (S := viewSys calls) (O := (viewSys calls).bookings ViewStore.total)

abbrev ViewSafe : (viewSys calls).Config → (viewSys calls).Event → Prop :=
  Asks (fun t r _ _ o => ViewCmd.mustSucceed (calls t) r = true → o.raises = false)
    fun _ _ => True

def NoneInProgress : Prop := ∀ t ∈ turns es, ((viewRun calls s es).thr t).2.next? = none

instance : Decidable (NoneInProgress calls s es) :=
  inferInstanceAs (Decidable (∀ t ∈ turns es, _))

/-- The `record_view` calls for a user that have returned. -/
def recordedViews (userId : Int) : Finset Tid :=
  (turns es).filter fun t => calls t = .recordView userId ∧
    ((viewRun calls s es).thr t).2.result?.any Except.isOk

lemma holds_bookedRun (hes : RunOk (ViewSafe calls) (start s) es) :
    (viewProtocol calls).Holds (S := bookedViews calls) (AddedPost calls)
      (bookedRun calls s es) := by
  exact sound_observed (S := viewSys calls) (O := (viewSys calls).bookings ViewStore.total)
    (c := start (s, fun _ => 0)) (fun _ _ _ _ _ h => h) (fun e => Empty.elim e)
    (Holds.start trivial fun t => wp_viewCall rfl) hes

/-- **View conservation.** Calls run under any schedule, and Redis and the repository raise
wherever `ViewSafe` allows. When no call is in progress, the persistent and pending views of each
user are those of the start and one for each `record_view` that has returned. -/
theorem views_conserved (hes : RunOk (ViewSafe calls) (start s) es)
    (hidle : NoneInProgress calls s es) (userId : Int) :
    (viewRun calls s es).sh.total userId =
      s.total userId + (recordedViews calls s es userId).card := by
  have hh := holds_bookedRun calls s es hes
  have htotal : (bookedRun calls s es).sh.1.total =
      s.total + ∑ t ∈ turns es, (bookedRun calls s es).sh.2 t :=
    total_run (S := viewSys calls) ViewStore.total
      (fun (e : Empty) _ => e.elim) (Finset.Subset.refl _) s
  have hadded : ∀ t ∈ turns es, (bookedRun calls s es).sh.2 t userId =
      if calls t = .recordView userId ∧
        ((viewRun calls s es).thr t).2.result?.any Except.isOk then 1 else 0 := by
    intro t ht
    obtain ⟨r, hr⟩ := Prog.result_of_ended (hidle t ht)
    have hpost : (bookedRun calls s es).sh.2 t = (calls t).added r := by
      rw [← erase_bookedRun] at hr
      exact hh.result hr
    rw [hpost, hr]
    exact ViewCall.added_apply (calls t) r
  rw [← erase_bookedRun, Sys.erase, htotal, Pi.add_apply, Finset.sum_apply,
    Finset.sum_congr rfl hadded, Finset.sum_boole]
  rfl

end Runs

/-! ### Two views of user 7 -/

def sampleViews : Tid → ViewCall
  | 0 => .recordView 7
  | 1 => .recordView 7
  | _ => .sync

/-- The calls take turns; `true` for a request that raises. -/
def viewOrder (ts : List (Tid × Bool)) : List (viewSys sampleViews).Event :=
  ts.map fun p => .turn p.1 ⟨p.2⟩

/-- A sync runs between the two commands of call 0, and call 1 falls back to the repository. -/
theorem views_conserved_fallback : (viewRun sampleViews {} (viewOrder
      [(0, false), (2, false), (1, true), (0, false), (1, false), (2, false)])).sh.total 7 = 2 := by
  rw [views_conserved sampleViews {} _ (by decide +kernel) (by decide +kernel)]
  decide +kernel

/-- `SADD` raises in call 0, which is then counted twice. And the batch write of a sync raises: the
view of call 0 is lost. -/
theorem views_not_conserved :
    (NoneInProgress sampleViews {} (viewOrder [(0, false), (0, true), (0, false)]) ∧
      (recordedViews sampleViews {} (viewOrder [(0, false), (0, true), (0, false)]) 7).card = 1 ∧
      (viewRun sampleViews {} (viewOrder [(0, false), (0, true), (0, false)])).sh.total 7 = 2) ∧
    NoneInProgress sampleViews {} (viewOrder [(0, false), (0, false), (2, false), (2, true)]) ∧
      (recordedViews sampleViews {}
        (viewOrder [(0, false), (0, false), (2, false), (2, true)]) 7).card = 1 ∧
      (viewRun sampleViews {}
        (viewOrder [(0, false), (0, false), (2, false), (2, true)])).sh.total 7 = 0 := by
  decide +kernel

end CleanArch
