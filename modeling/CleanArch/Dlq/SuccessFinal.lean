import CleanArch.Async.Alone
import CleanArch.Dlq.Service

/-!
# The success of a handler

The `try` block of an attempt also awaits the acknowledgement. If that raises, the attempt counts as
failed although the handler has returned: the handler is invoked again, or the message is
quarantined.
-/

namespace CleanArch

open Async List

/-! ## What a call has done -/

inductive DlqEvent where
  | handled (returned : Bool)
  | acked (returned : Bool)
  | quarantined
  deriving DecidableEq

def noteEvent (h : List DlqEvent) : (c : DlqCmd) → Except DlqError c.Res → List DlqEvent
  | .handler _, r => h ++ [.handled r.isOk]
  | .ack, r => h ++ [.acked r.isOk]
  | .routeToDlq _, _ => h ++ [.quarantined]
  | _, _ => h

@[reducible] def eventObserver : Observer dlqMachine Empty where
  H := List DlqEvent
  turn _ c r _ _ h := noteEvent h c r
  world _ h := h

/-- The events of one call of `process_with_dlq`, with the given answers of the world. -/
def dlqEvents (t : Tid) (args : ProcessArgs) (o : Nat → DlqAnswer) (store : List DLQEnvelope) :
    List DlqEvent :=
  ((dlqMachine.observed eventObserver).run t (processWithDlq t args) o {} (store, [])).2.2.2

def DlqEvent.undoes : DlqEvent → Bool
  | .handled _ => true
  | .acked _ => false
  | .quarantined => true

def SuccessFinal (h : List DlqEvent) : Prop :=
  h.Pairwise fun a b => a = .handled true → b.undoes = false

instance (h : List DlqEvent) : Decidable (SuccessFinal h) :=
  inferInstanceAs (Decidable (h.Pairwise _))

def AckRaises (h : List DlqEvent) : Prop := [.handled true, .acked false] <:+: h

/-! ## The attempts -/

inductive Vain : List DlqEvent → Prop
  | nil : Vain []
  | raised {h : List DlqEvent} (hh : Vain h) : Vain (h ++ [.handled false])
  | ackRaised {h : List DlqEvent} (hh : Vain h) : Vain (h ++ [.handled true, .acked false])

def Succeeded (h : List DlqEvent) : Prop :=
  ∃ h', Vain h' ∧ (h = h' ++ [.handled true] ∨ h = h' ++ [.handled true, .acked true])

def GaveUp (h : List DlqEvent) : Prop :=
  ∃ h', Vain h' ∧ (h = h' ++ [.quarantined] ∨ ∃ b, h = h' ++ [.quarantined, .acked b])

/-! ### Rules -/

section Rules

variable {α β : Type} {t : Tid} {h : List DlqEvent}

/-- However the world answers, the program ends with events in `Q` if it starts with `h`. -/
def Tells (t : Tid) (p : DlqProg α) (Q : Except DlqError α → List DlqEvent → Prop)
    (h : List DlqEvent) : Prop :=
  ∀ l store, (dlqMachine.observed eventObserver).Ends (fun _ => True) t p
    (fun r _ s => Q r s.2) l (store, h)

lemma tells_ret {a : α} (hQ : Q (.ok a) h) : Tells t (.ret a) Q h := fun _ _ => hQ

lemma tells_raise (hQ : Q (.error e) h) : Tells t (.raise e) Q h := fun _ _ => hQ

lemma tells_call {Q : Except DlqError c.Res → List DlqEvent → Prop}
    (hQ : ∀ o l store, Q (c.exec o l store).1 (noteEvent h c (c.exec o l store).1)) :
    Tells t (dlq c) Q h :=
  fun l store => Machine.ends_call.mpr fun o _ => hQ o l store

lemma Tells.mono {p : DlqProg α} {Q' : Except DlqError α → List DlqEvent → Prop}
    (hp : Tells t p Q h) (hQ : ∀ r h, Q r h → Q' r h) : Tells t p Q' h :=
  fun l store => (hp l store).mono fun r _ s => hQ r s.2

lemma tells_bind {p : DlqProg β} {f : β → DlqProg α}
    {P : Except DlqError β → List DlqEvent → Prop} (hp : Tells t p P h)
    (hok : ∀ b h, P (.ok b) h → Tells t (f b) Q h) (herr : ∀ e h, P (.error e) h → Q (.error e) h) :
    Tells t (p.bind f) Q h := by
  intro l store
  refine Machine.ends_bind.mpr ((hp l store).mono fun r l s hr => ?_)
  cases r with
  | ok b => exact hok b s.2 hr l s.1
  | error e => exact herr e s.2 hr

lemma tells_silent {f : c.Res → DlqProg α} (hc : ∀ o l store, ∃ a, (c.exec o l store).1 = .ok a)
    (hnote : ∀ r, noteEvent h c r = h) (hf : ∀ a, Tells t (f a) Q h) :
    Tells t ((dlq c).bind f) Q h := by
  refine tells_bind (P := fun r h' => (∃ a, r = .ok a) ∧ h' = h)
    (tells_call fun o l store => ⟨hc o l store, hnote _⟩) ?_ ?_
  · rintro a _ ⟨-, rfl⟩
    exact hf a
  · rintro e _ ⟨⟨_, heq⟩, -⟩
    cases heq

lemma tells_attempt {p : DlqProg β} {Q : Except DlqError (Except DlqError β) → List DlqEvent → Prop}
    (hp : Tells t p (fun r => Q (.ok r)) h) : Tells t p.attempt Q h :=
  fun l store => Machine.ends_attempt.mpr (hp l store)

end Rules

section Attempts

variable {h : List DlqEvent}

def TryPost (r : Except DlqError String) (h : List DlqEvent) : Prop :=
  match r with
  | .ok _ => Succeeded h
  | .error _ => Vain h

lemma tells_tryHandler (hh : Vain h) : Tells t (tryHandler args) TryPost h := by
  refine tells_bind (P := fun r h' => h' = h ++ [.handled r.isOk]) (tells_call fun _ _ _ => rfl)
    ?_ ?_
  · rintro result _ rfl
    by_cases hack : args.ackFunc = true
    · rw [if_pos hack]
      refine tells_bind (P := fun r h' => h' = h ++ [.handled true] ++ [.acked r.isOk])
        (tells_call fun _ _ _ => rfl) ?_ ?_
      · rintro _ _ rfl
        exact tells_ret ⟨h, hh, .inr (append_assoc ..)⟩
      · rintro e _ rfl
        rw [append_assoc]
        exact hh.ackRaised
    · rw [if_neg hack]
      exact tells_ret ⟨h, hh, .inl rfl⟩
  · rintro e _ rfl
    exact hh.raised

def LoopPost (r : Except DlqError (Except (Option DlqError) String)) (h : List DlqEvent) : Prop :=
  match r with
  | .ok (.ok _) => Succeeded h
  | .ok (.error _) => Vain h
  | .error _ => False

lemma tells_attempts (hh : Vain h) (left attempt : Nat) (lastExc : Option DlqError) :
    Tells t (attempts args left attempt lastExc) LoopPost h := by
  induction left generalizing h attempt lastExc with
  | zero => exact tells_ret hh
  | succ left ih =>
    refine tells_bind (P := fun r h' => ∃ r', r = .ok r' ∧ TryPost r' h')
      (tells_attempt ((tells_tryHandler hh).mono fun r h' hr => ⟨r, rfl, hr⟩)) ?_ ?_
    · rintro r h' ⟨_, heq, hr⟩
      cases heq
      cases r with
      | ok => exact tells_ret hr
      | error exc =>
        -- the sleep, if there is one, is not an event
        change Tells t (if _ then (dlq (.sleep _)).bind fun _ => attempts args left _ (some exc)
          else attempts args left _ (some exc)) LoopPost h'
        split
        · exact tells_silent (fun _ _ _ => ⟨_, rfl⟩) (fun _ => rfl) fun _ => ih hr _ _
        · exact ih hr _ _
    · rintro e h' ⟨_, heq, -⟩
      cases heq

lemma tells_chooseMessageId :
    Tells t (chooseMessageId args) (fun r h' => (∃ id, r = .ok id) ∧ h' = h) h := by
  have huuid : Tells t ((dlq .uuid).bind fun u => .ret ("msg_" ++ u))
      (fun r h' => (∃ id, r = .ok id) ∧ h' = h) h :=
    tells_silent (fun _ _ _ => ⟨_, rfl⟩) (fun _ => rfl) fun u => tells_ret ⟨⟨_, rfl⟩, rfl⟩
  unfold chooseMessageId
  split
  · split
    · exact tells_ret ⟨⟨_, rfl⟩, rfl⟩
    · exact huuid
  · exact huuid

lemma tells_quarantine (hh : Vain h) : Tells t (quarantine t args lastExc)
      (fun _ h' => if args.maxRetries < 0 then h' = h else GaveUp h') h := by
  refine tells_bind tells_chooseMessageId ?_ ?_
  · rintro id _ ⟨-, rfl⟩
    by_cases hneg : args.maxRetries < 0
    · simp only [if_pos hneg, Prog.raiseIf]
      exact tells_raise rfl
    · simp only [if_neg hneg, Prog.raiseIf]
      refine tells_silent (c := .now) (fun _ _ _ => ⟨_, rfl⟩) (fun _ => rfl) fun failedAt => ?_
      refine tells_bind (P := fun r h' => r = .ok () ∧ h' = _ ++ [.quarantined])
        (tells_call fun _ _ _ => ⟨rfl, rfl⟩) ?_ ?_
      · rintro _ _ ⟨-, rfl⟩
        have hacked : ∀ b, GaveUp (_ ++ [.quarantined] ++ [.acked b]) := fun b =>
          ⟨_, hh, .inr ⟨b, append_assoc ..⟩⟩
        split
        · refine tells_bind (P := fun r h' => h' = _ ++ [.quarantined] ++ [.acked r.isOk])
            (tells_call fun _ _ _ => rfl) ?_ ?_
          · rintro _ _ rfl
            exact tells_ret (hacked _)
          · rintro e _ rfl
            exact hacked _
        · exact tells_ret ⟨_, hh, .inl rfl⟩
      · rintro e _ ⟨heq, -⟩
        cases heq
  · rintro e _ ⟨⟨_, heq⟩, -⟩
    cases heq

lemma tells_processWithDlq : Tells t (processWithDlq t args)
    (fun _ h => Succeeded h ∨ GaveUp h ∨ h = []) [] := by
  by_cases hneg : args.maxRetries < 0
  · have hnone : args.maxRetries.toNat = 0 := Int.toNat_of_nonpos hneg.le
    unfold processWithDlq
    rw [hnone]
    refine (tells_quarantine Vain.nil).mono fun _ h hpost => ?_
    rw [if_pos hneg] at hpost
    exact .inr (.inr hpost)
  · refine tells_bind (tells_attempts Vain.nil _ 0 none) ?_ ?_
    · intro r h hr
      cases r with
      | ok => exact tells_ret (.inl hr)
      | error lastExc =>
        refine (tells_quarantine hr).mono fun _ h' hpost => ?_
        rw [if_neg hneg] at hpost
        exact .inr (.inl hpost)
    · exact fun e h hfalse => hfalse.elim

end Attempts

/-! ## The order of the events -/

section Order

variable {tail : List DlqEvent}

lemma Vain.handled_of_acked (hh : Vain h) (hmem : .acked false ∈ h) : .handled true ∈ h := by
  induction hh with
  | nil => cases hmem
  | raised hh ih =>
    rcases mem_append.mp hmem with hmem | hmem
    · exact mem_append_left _ (ih hmem)
    · cases mem_singleton.mp hmem
  | ackRaised => exact mem_append_right _ mem_cons_self

lemma Vain.raised_of_not (hh : Vain h) (hnot : ¬ AckRaises h) : ∀ e ∈ h, e = .handled false := by
  induction hh with
  | nil => exact fun e he => absurd he not_mem_nil
  | @raised h hh ih =>
    intro e he
    rcases mem_append.mp he with he | he
    · exact ih (fun hin => hnot (hin.trans (prefix_append h _).isInfix)) e he
    · exact mem_singleton.mp he
  | @ackRaised h hh ih => exact absurd (suffix_append h _).isInfix hnot

lemma successFinal_iff_of_vain (hh : Vain h) (hx : x.undoes = true)
    (htail : ∀ e ∈ tail, e.undoes = false) (hacked : x = .handled true → .acked false ∉ tail) :
    SuccessFinal (h ++ x :: tail) ↔ ¬ AckRaises (h ++ x :: tail) := by
  constructor
  · intro hfinal hraises
    -- the success whose acknowledgement raised is followed by `x`
    have hmem : .handled true ∈ h := by
      have hsuccess : .handled true ∈ h ++ x :: tail := hraises.subset mem_cons_self
      rcases mem_append.mp hsuccess with hmem | hmem
      · exact hmem
      rcases mem_cons.mp hmem with heq | hmem
      swap
      · exact absurd (htail _ hmem) (by decide)
      have hack : .acked false ∈ h ++ x :: tail :=
        hraises.subset (mem_cons_of_mem _ mem_cons_self)
      rcases mem_append.mp hack with hack | hack
      · exact hh.handled_of_acked hack
      rcases mem_cons.mp hack with heq' | hack
      · cases heq'.trans heq.symm
      · exact absurd hack (hacked heq.symm)
    have := (pairwise_append.mp hfinal).2.2 _ hmem x mem_cons_self rfl
    rw [hx] at this
    cases this
  · intro hnot
    have hraised := hh.raised_of_not fun hin =>
      hnot (hin.trans (prefix_append h _).isInfix)
    refine pairwise_append.mpr ⟨?_, pairwise_cons.mpr ⟨?_, ?_⟩, ?_⟩
    · exact pairwise_of_forall_mem_list fun a ha b _ heq => by
        cases (hraised a ha).symm.trans heq
    · exact fun b hb _ => htail b hb
    · exact pairwise_of_forall_mem_list fun a _ b hb _ => htail b hb
    · intro a ha b _ heq
      cases (hraised a ha).symm.trans heq

lemma Succeeded.successFinal_iff (hh : Succeeded h) : SuccessFinal h ↔ ¬ AckRaises h := by
  obtain ⟨h', hvain, rfl | rfl⟩ := hh
  · exact successFinal_iff_of_vain hvain rfl (by simp) (by simp)
  · exact successFinal_iff_of_vain hvain rfl (by simp [DlqEvent.undoes]) (by simp)

lemma GaveUp.successFinal_iff (hh : GaveUp h) : SuccessFinal h ↔ ¬ AckRaises h := by
  obtain ⟨h', hvain, rfl | ⟨b, rfl⟩⟩ := hh
  · exact successFinal_iff_of_vain hvain rfl (by simp) (by simp)
  · exact successFinal_iff_of_vain hvain rfl (by simp [DlqEvent.undoes]) (by simp)

end Order

/-- **The success of a handler is final exactly if its acknowledgement does not raise**, for every
number of retries and however the handler and the acknowledgement behave: the handler is not invoked
after it has returned, and the message is not quarantined. -/
theorem success_final_iff (t : Tid) (args : ProcessArgs) (o : Nat → DlqAnswer)
    (store : List DLQEnvelope) :
    SuccessFinal (dlqEvents t args o store) ↔ ¬ AckRaises (dlqEvents t args o store) := by
  have hover : Succeeded (dlqEvents t args o store) ∨ GaveUp (dlqEvents t args o store) ∨
      dlqEvents t args o store = [] :=
    Machine.run_of_ends (tells_processWithDlq {} store) fun _ => trivial
  rcases hover with h | h | h
  · exact h.successFinal_iff
  · exact h.successFinal_iff
  · rw [h]
    exact iff_of_true List.Pairwise.nil (by simp [AckRaises])

/-- The handler returns, and the acknowledgement raises: with two attempts the handler is invoked
again, with one the message is quarantined. -/
theorem ack_failure_undoes_success :
    let broker : Nat → DlqAnswer := fun n =>
      if n = 1 then { raises := some (.exception "channel closed" "") } else { text := "done" }
    let args : ProcessArgs := { destination := "orders", payload := "order 1", ackFunc := true }
    dlqEvents 0 { args with maxRetries := 2 } broker [] =
        [.handled true, .acked false, .handled true, .acked true] ∧
      dlqEvents 0 { args with maxRetries := 1 } broker [] =
        [.handled true, .acked false, .quarantined, .acked true] ∧
      ¬ SuccessFinal (dlqEvents 0 { args with maxRetries := 2 } broker []) ∧
      ¬ SuccessFinal (dlqEvents 0 { args with maxRetries := 1 } broker []) := by
  decide +kernel

end CleanArch
