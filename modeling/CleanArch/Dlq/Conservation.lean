import CleanArch.Dlq.Service

/-!
# No quarantined message is lost

Every envelope that was appended to the store is still there or has been passed to a republish
function that has returned, in every run whose redrives are safe (`DlqCmd.safe`).
-/

namespace CleanArch

open Async List Prog Protocol Sys

/-! ## The history -/

structure DlqHistory where
  appended : List DLQEnvelope := []
  republished : List DLQEnvelope := []

def noteDlq (h : DlqHistory) : (c : DlqCmd) → Except DlqError c.Res → DlqHistory
  | .routeToDlq env, .ok _ => { h with appended := h.appended ++ [env] }
  | .republish env, .ok _ => { h with republished := h.republished ++ [env] }
  | _, _ => h

@[reducible] def dlqObserver : Observer dlqMachine Empty where
  H := DlqHistory
  turn _ c r _ _ h := noteDlq h c r
  world _ h := h

abbrev DlqView := List DLQEnvelope × DlqHistory

def Conserved (w : DlqView) : Prop := ∀ e ∈ w.2.appended, e ∈ w.1 ∨ e ∈ w.2.republished

/-- The redrive replaces a store of which it has seen every envelope, and has republished the ones
that it takes out. -/
def DlqCmd.safe (call : DlqCall) (l : Redrive) (store : List DLQEnvelope) : DlqCmd → Bool
  | .replace _ => (store.all fun e => e ∈ l.candidates ∨ e ∈ l.remaining) &&
      (call.republishes || l.candidates.isEmpty)
  | _ => true

def DlqCmd.keepsStore : DlqCmd → Bool
  | .replace _ => false
  | _ => true

lemma republished_subset (r : Except DlqError c.Res) (h : DlqHistory) :
    h.republished ⊆ (noteDlq h c r).republished := by
  cases c with
  | republish =>
    cases r with
    | ok => exact subset_append_left _ _
    | error => exact List.Subset.refl _
  | routeToDlq =>
    cases r with
    | ok | error => exact List.Subset.refl _
  | _ => exact List.Subset.refl _

lemma Conserved.keepsStore (h : Conserved w) (hc : c.keepsStore = true) :
    Conserved ((c.exec o l w.1).2.2, noteDlq w.2 c (c.exec o l w.1).1) := by
  cases c with
  | replace => cases hc
  | routeToDlq =>
    intro e he
    rcases mem_append.mp he with he | he
    · exact (h e he).imp (mem_append_left _) id
    · exact Or.inl (mem_append_right _ he)
  | republish env =>
    intro e he
    have hmem :=
      republished_subset (c := .republish env) (DlqCmd.exec o l w.1 (.republish env)).1 w.2
    have happ : (noteDlq w.2 (.republish env) (DlqCmd.exec o l w.1 (.republish env)).1).appended =
        w.2.appended := by
      cases (DlqCmd.exec o l w.1 (.republish env)).1 <;> rfl
    rw [happ] at he
    exact (h e he).imp id (@hmem e)
  | _ => exact h

lemma Conserved.replace (h : Conserved w) {call : DlqCall} (hl : l.remaining = remaining)
    (hrep : call.republishes = true → ∀ e ∈ l.candidates, e ∈ w.2.republished)
    (hsafe : (DlqCmd.replace remaining).safe call l w.1 = true) : Conserved (remaining, w.2) := by
  simp only [DlqCmd.safe, Bool.and_eq_true, List.all_eq_true, Bool.or_eq_true,
    decide_eq_true_eq, List.isEmpty_iff] at hsafe
  obtain ⟨hseen, hfunc⟩ := hsafe
  intro e he
  rcases h e he with hstore | hdone
  · rcases hseen e hstore with hcand | hrem
    · rcases hfunc with hfunc | hnone
      · exact Or.inr (hrep hfunc e hcand)
      · rw [hnone] at hcand
        cases hcand
    · exact Or.inl (hl ▸ hrem)
  · exact Or.inr hdone

/-! ## The calls -/

def dlqProtocol (calls : Tid → DlqCall) : Protocol (dlqMachine.observed dlqObserver) where
  inv := Conserved
  rely _ w w' := w.2.republished ⊆ w'.2.republished
  ok t c l w _ := c.safe (calls t) l w.1 = true
  refl _ _ := List.Subset.refl _
  trans _ _ _ _ h1 h2 := List.Subset.trans h1 h2

section Calls

variable {l : Redrive} {w : DlqView}

lemma dlqProtocol_keeps (hi : Conserved w) (hc : c.keepsStore = true) :
    (dlqProtocol calls).Keeps t c o l w :=
  ⟨trivial, hi.keepsStore hc, fun _ _ => republished_subset _ _⟩

lemma wp_of_within {α : Type} {p : DlqProg α} (hp : p.Only (fun c => c.keepsStore = true)) :
    (dlqProtocol calls).wp t p (fun _ _ _ => True) l w :=
  wp_mono (wp_within (I := fun _ _ => True) (fun _ _ _ _ _ => trivial)
      (fun _ _ _ _ hc hi _ _ => ⟨dlqProtocol_keeps hi hc, trivial, fun _ _ => trivial⟩) hp trivial)
    fun _ _ _ _ _ => trivial

/-- The requests of a part of `process_with_dlq`. -/
abbrev KeepsStore {α : Type} (p : DlqProg α) : Prop :=
  p.Only (fun c => c.keepsStore = true)

lemma keepsStore_ackIf {α : Type} (ackFunc : Bool) {p : DlqProg α} (hp : KeepsStore p) :
    KeepsStore (if ackFunc then (dlq .ack).bind fun _ => p else p) :=
  within_ite (fun _ => within_call_bind rfl fun _ => hp) fun _ => hp

lemma keepsStore_attempts (args : ProcessArgs) (left attempt : Nat) (lastExc : Option DlqError) :
    KeepsStore (attempts args left attempt lastExc) := by
  induction left generalizing attempt lastExc with
  | zero => trivial
  | succ left ih =>
    have htry : KeepsStore (tryHandler args) :=
      within_call_bind rfl fun _ => keepsStore_ackIf args.ackFunc trivial
    refine within_bind (within_attempt htry) fun r => ?_
    cases r with
    | ok => trivial
    | error =>
      refine within_ite (fun _ => ?_) fun _ => ih _ _
      exact within_call_bind rfl fun _ => ih _ _

lemma keepsStore_chooseMessageId : KeepsStore (chooseMessageId args) := by
  have huuid : KeepsStore ((dlq .uuid).bind fun id => .ret ("msg_" ++ id)) :=
    within_call_bind rfl fun _ => trivial
  unfold chooseMessageId
  split
  · exact within_ite (fun _ => trivial) fun _ => huuid
  · exact huuid

lemma keepsStore_processWithDlq : KeepsStore (processWithDlq t args) := by
  refine within_bind (keepsStore_attempts args _ _ _) fun r => ?_
  cases r with
  | ok => trivial
  | error =>
    refine within_bind (keepsStore_chooseMessageId) fun id => ?_
    refine within_bind (within_ite (fun _ => trivial) fun _ => trivial) fun _ => ?_
    refine within_call_bind rfl fun failedAt => ?_
    exact within_call_bind rfl fun _ => keepsStore_ackIf args.ackFunc trivial

def RepublishPost (args : RedriveArgs) (envs : List DLQEnvelope) (lists : Redrive)
    (r : Except DlqError Nat) (l : Redrive) (w : DlqView) : Prop :=
  l = lists ∧ ∀ n, r = .ok n → args.republishFunc = true → ∀ e ∈ envs, e ∈ w.2.republished

lemma republishPost_stable (args : RedriveArgs) (envs : List DLQEnvelope) (lists : Redrive) :
    (dlqProtocol calls).Stable t (RepublishPost args envs lists) :=
  fun _ _ _ _ h hr => ⟨h.1, fun n hn hf e he => hr.rely (h.2 n hn hf e he)⟩

lemma wp_republishAll (args : RedriveArgs) (done envs : List DLQEnvelope) (n : Nat)
    (hdone : args.republishFunc = true → ∀ e ∈ done, e ∈ w.2.republished) :
    (dlqProtocol calls).wp t (republishAll args envs n)
      (RepublishPost args (done ++ envs) l) l w := by
  induction envs generalizing done n w with
  | nil =>
    refine (republishPost_stable _ _ _).ret ⟨rfl, fun _ _ hf e he => ?_⟩
    rw [append_nil] at he
    exact hdone hf e he
  | cons env envs ih =>
    have hassoc : done ++ env :: envs = (done ++ [env]) ++ envs := by simp
    rw [hassoc]
    refine wp_ite (fun hf => ?_) fun hf => ih (done ++ [env]) (n + 1) fun h => absurd h hf
    refine (republishPost_stable _ _ _).call_bind fun w' o hr hi _ => ⟨dlqProtocol_keeps hi rfl, ?_⟩
    cases hraises : o.raises with
    | some =>
      simp only [DlqCmd.exec, hraises]
      exact ⟨rfl, nofun⟩
    | none =>
      simp only [DlqCmd.exec, hraises]
      refine ih (done ++ [env]) (n + 1) fun hf e he => ?_
      rcases mem_append.mp he with he | he
      · exact mem_append_left _ (hr (hdone hf e he))
      · exact mem_append_right _ he

lemma wp_redriveMessages (hcall : calls t = .redrive args) :
    (dlqProtocol calls).wp t (redriveMessages args) (fun _ _ _ => True) l w := by
  have hstable : (dlqProtocol calls).Stable t (fun (_ : Except DlqError DlqOutcome) _ _ => True) :=
    fun _ _ _ _ _ _ => trivial
  refine hstable.call_bind fun w' o hr hi _ => ⟨dlqProtocol_keeps hi rfl, ?_⟩
  have hloop : (dlqProtocol calls).wp t
      (republishAll args (splitStore args.queueOrTopic args.limit w'.1).candidates 0)
      (RepublishPost args (splitStore args.queueOrTopic args.limit w'.1).candidates
        (splitStore args.queueOrTopic args.limit w'.1))
      (splitStore args.queueOrTopic args.limit w'.1) w' :=
    wp_republishAll args [] _ 0 nofun
  refine wp_bind (wp_mono hloop fun r l w _ hpost => ?_)
  cases r with
  | error => trivial
  | ok n =>
    obtain ⟨rfl, hall⟩ := hpost
    refine hstable.call_bind fun w'' o' hr' hi' hsafe => ⟨⟨trivial, ?_, ?_⟩, hstable.ret trivial⟩
    · refine hi'.replace rfl (fun hfunc e he => hr' (hall n rfl ?_ e he)) hsafe
      rw [hcall] at hfunc
      exact hfunc
    · exact fun _ _ => List.Subset.refl _

lemma wp_dlqCall : (dlqProtocol calls).wp t ((calls t).prog t) (fun _ _ _ => True) l w := by
  cases hcall : calls t with
  | process args => exact wp_of_within (keepsStore_processWithDlq)
  | redrive => exact wp_redriveMessages hcall

end Calls

/-! ## Runs -/

section Runs

variable (calls : Tid → DlqCall) (es : List (dlqSys calls).Event)

def dlqRun : (dlqSys calls).Config := run (start []) es

def observedDlq : ((dlqSys calls).observed dlqObserver).Config :=
  run (start ([], {})) (es.map (Event.observe (S := dlqSys calls) dlqObserver))

def dlqHistory : DlqHistory := (observedDlq calls es).sh.2

lemma erase_observedDlq : erase (observedDlq calls es) = dlqRun calls es :=
  erase_run (S := dlqSys calls) (O := dlqObserver)

abbrev RedriveSafe : (dlqSys calls).Config → (dlqSys calls).Event → Prop :=
  Asks (fun t r l s _ => DlqCmd.safe (calls t) l s r = true) fun _ _ => True

/-- **No quarantined message is lost.** Calls run under any schedule, and what they await raises
anywhere. If every redrive that replaces the store is safe, each envelope that was appended is in
the store or has been republished. -/
theorem quarantined_not_lost (hes : RunOk (RedriveSafe calls) (start []) es) :
    ∀ e ∈ (dlqHistory calls es).appended,
      e ∈ (dlqRun calls es).sh ∨ e ∈ (dlqHistory calls es).republished := by
  have hh : Holds (S := (dlqSys calls).observed dlqObserver) (P := dlqProtocol calls)
      (Q := fun _ _ _ _ => True) (observedDlq calls es) := by
    exact sound_observed (S := dlqSys calls) (O := dlqObserver) (c := start ([], {}))
      (fun _ _ _ _ _ h => h) (fun e => Empty.elim e)
      (Holds.start (fun e he => by cases he) fun t => wp_dlqCall) hes
  rw [← erase_observedDlq]
  exact hh.1

end Runs

/-! ### A redrive of one message -/

/-- Calls 0 and 2 have a handler that fails; call 1 redrives with a republish function, call 3
without one. -/
def sampleDlq : Tid → DlqCall
  | 1 => .redrive { republishFunc := true }
  | 3 => .redrive {}
  | _ => .process { destination := "orders.events", payload := "", maxRetries := 1 }

def dlqOrder (ts : List Tid) : List (dlqSys sampleDlq).Event :=
  ts.map fun t => .turn t (if t = 0 ∨ t = 2 then { raises := some (.exception "boom" "") } else {})

/-- Call 0 quarantines its message, and call 1 redrives it. -/
theorem quarantined_not_lost_sample :
    (dlqHistory sampleDlq (dlqOrder [0, 0, 0, 0, 1, 1, 1])).appended.length = 1 ∧
      ((dlqHistory sampleDlq (dlqOrder [0, 0, 0, 0, 1, 1, 1])).appended.all fun e =>
        e ∈ (dlqRun sampleDlq (dlqOrder [0, 0, 0, 0, 1, 1, 1])).sh ∨
          e ∈ (dlqHistory sampleDlq (dlqOrder [0, 0, 0, 0, 1, 1, 1])).republished) = true := by
  refine ⟨by decide +kernel, List.all_eq_true.mpr fun e he => decide_eq_true ?_⟩
  exact quarantined_not_lost sampleDlq _ (by decide +kernel) e he

/-- The envelopes that are gone after the schedule. -/
def lostEnvelopes (ts : List Tid) : List DLQEnvelope :=
  (dlqHistory sampleDlq (dlqOrder ts)).appended.filter fun e =>
    e ∉ (dlqRun sampleDlq (dlqOrder ts)).sh ∧ e ∉ (dlqHistory sampleDlq (dlqOrder ts)).republished

/-- Call 2 quarantines its message while call 1 awaits its republish function; and a redrive
without a republish function drops the message of call 0. -/
theorem redrive_loses : (lostEnvelopes [0, 0, 0, 0, 1, 2, 2, 2, 2, 1, 1]).map (·.builtBy) = [2] ∧
      (lostEnvelopes [0, 0, 0, 0, 3, 3]).map (·.builtBy) = [0] := by
  decide +kernel

end CleanArch
