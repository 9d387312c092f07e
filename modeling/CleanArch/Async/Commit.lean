import CleanArch.Async.Phases

/-!
# Programs that commit

A program that makes its effect final at one request, the commit, and still has requests to make
after it. If such a program raises, is its effect there? `commitment` reads off the requests whether
the commit was answered, and whether a request of `need` raised.
-/

namespace CleanArch
namespace Async

inductive CommitPhase where
  | before
  /-- The commit was answered. -/
  | done
  /-- The commit raised. -/
  | lost
  /-- A request of `need` raised. -/
  | failed

namespace CommitPhase

variable {E α : Type}

def Ends : CommitPhase → Except E α → Prop
  | .done, r => ∃ a, r = .ok a
  | .failed, r => ∃ e, r = .error e
  | _, _ => True

lemma ends_error {q : CommitPhase} (hq : q ≠ .done) (e : E) : q.Ends (.error e : Except E α) := by
  cases q with
  | done => exact absurd rfl hq
  | failed => exact ⟨e, rfl⟩
  | _ => trivial

lemma Ends.ne_done {q : CommitPhase} {e : E} (h : q.Ends (.error e : Except E α)) : q ≠ .done := by
  rintro rfl
  obtain ⟨a, ha⟩ := h
  cases ha

end CommitPhase

section Rules

open CommitPhase Phases

variable {C : Type} {R : C → Type} {E α β : Type}

@[reducible] def commitment (need commit : C → Bool)
    (possible : (c : C) → Except E (R c) → Prop) : Phases C R E where
  Phase := CommitPhase
  possible := possible
  allowed q c := commit c = true → q = .before
  next q c
    | .ok _ => if commit c then .done else q
    | .error _ => if commit c then .lost else if need c then .failed else q

/-- The program ends as its phase says. -/
abbrev Settles (need commit : C → Bool) (possible : (c : C) → Except E (R c) → Prop)
    (p : Prog C R E α) (q : CommitPhase) : Prop :=
  (commitment need commit possible).Follows p (fun r q => q.Ends r) q

variable {possible : (c : C) → Except E (R c) → Prop} {p : Prog C R E β}

lemma settles_apart (hp : p.Only fun c => commit c = false ∧ need c = false)
    (hk : ∀ b, Settles need commit possible (k b) .before) :
    Settles need commit possible (p.bind k) .before := by
  refine follows_within_bind (fun c hc => ⟨fun _ => rfl, fun r => ?_⟩) hp hk fun _ => trivial
  cases r with
  | ok | error => simp [hc.1, hc.2]

lemma settles_need {c : C} {k : R c → Prog C R E α} (hneed : need c = true)
    (hcommit : commit c = false) (hk : ∀ b, Settles need commit possible (k b) q) :
    Settles need commit possible ((Prog.call c).bind k) q := by
  refine follows_call_bind (fun h => ?_) (fun b _ => ?_) fun e _ => ?_
  · rw [hcommit] at h
    cases h
  · simpa [hcommit] using hk b
  · simp only [hcommit, hneed, if_true, Bool.false_eq_true, if_false]
    exact ⟨e, rfl⟩

lemma settles_commit {c : C} {k : R c → Prog C R E α} (hcommit : commit c = true)
    (hk : ∀ b, Settles need commit possible (k b) .done) :
    Settles need commit possible ((Prog.call c).bind k) .before := by
  refine follows_call_bind (fun _ => rfl) (fun b _ => ?_) fun e _ => ?_
  · simpa [hcommit] using hk b
  · simp only [hcommit, if_true]
    trivial

lemma Settles.bind (hp : Settles need commit possible p .before)
    (hk : ∀ b q, q.Ends (.ok b : Except E β) → Settles need commit possible (k b) q) :
    Settles need commit possible (p.bind k) .before := by
  refine follows_bind (Follows.mono hp fun r q hq => ?_)
  cases r with
  | ok b => exact hk b q hq
  | error e => exact ends_error hq.ne_done e

lemma Settles.handle {p : Prog C R E α} {h : E → Prog C R E α}
    (hp : Settles need commit possible p .before)
    (hh : ∀ e q, q ≠ .done → Settles need commit possible (h e) q) :
    Settles need commit possible (p.handle h) .before := by
  refine follows_handle (Follows.mono hp fun r q hq => ?_)
  cases r with
  | ok => exact hq
  | error e => exact hh e q hq.ne_done

/-- A part of a program that is about to raise. -/
lemma settles_failing (hp : p.Only (commit · = false)) (hq : q ≠ .done)
    (hk : ∀ b q', q' ≠ .done → Settles need commit possible (k b) q') :
    Settles need commit possible (p.bind k) q := by
  induction p generalizing q with
  | ret b => exact hk b q hq
  | raise e => exact ends_error hq e
  | await c k' ih =>
    refine ⟨fun hc => absurd hc (by rw [hp.1]; exact Bool.false_ne_true), fun r _ => ?_⟩
    refine ih r (hp.2 r fun _ _ => trivial) ?_
    cases r with
    | ok => simpa [hp.1] using hq
    | error => cases hneed : need c <;> simp [hp.1, hneed, hq]

end Rules

/-! ## Runs -/

namespace Machine

variable {M : Machine} {α : Type}

def Along (ok : M.Cmd → M.Out → M.Loc → M.Sh → Prop) (t : Tid) :
    M.Prog α → (Nat → M.Out) → M.Loc → M.Sh → Prop
  | .await c k, o, l, s => ok c (o 0) l s ∧
      Along ok t (k (M.exec t c (o 0) l s).1) (fun n => o (n + 1)) (M.exec t c (o 0) l s).2.1
        (M.exec t c (o 0) l s).2.2
  | _, _, _, _ => True

instance decidableAlong (ok : M.Cmd → M.Out → M.Loc → M.Sh → Prop)
    [∀ c o l s, Decidable (ok c o l s)] (t : Tid) :
    (p : M.Prog α) → (o : Nat → M.Out) → (l : M.Loc) → (s : M.Sh) → Decidable (Along ok t p o l s)
  | .await c k, o, l, s =>
    have := decidableAlong ok t (k (M.exec t c (o 0) l s).1) (fun n => o (n + 1))
      (M.exec t c (o 0) l s).2.1 (M.exec t c (o 0) l s).2.2
    inferInstanceAs (Decidable (_ ∧ _))
  | .ret _, _, _, _ => inferInstanceAs (Decidable True)
  | .raise _, _, _, _ => inferInstanceAs (Decidable True)

section Along

variable {t : Tid} {p : M.Prog α} {o : Nat → M.Out} {l : M.Loc} {s : M.Sh}

lemma Along.mono (h : ∀ c o l s, ok c o l s → ok' c o l s) (hp : Along ok t p o l s) :
    Along ok' t p o l s := by
  induction p generalizing o l s with
  | ret | raise => trivial
  | await c k ih => exact ⟨h _ _ _ _ hp.1, ih _ hp.2⟩

variable {changed : M.Sh → Prop}

lemma along_of_unchanged (hstay : ∀ c o l s, changed s → changed (M.exec t c o l s).2.2)
    (h : ¬ changed (M.run t p o l s).2.2) : Along (fun _ _ _ s => ¬ changed s) t p o l s := by
  have hrun : ∀ (p : M.Prog α) o l s, changed s → changed (M.run t p o l s).2.2 := by
    intro p
    induction p with
    | ret | raise => exact fun _ _ _ hs => hs
    | await c k ih => exact fun o l s hs => ih _ _ _ _ (hstay c (o 0) l s hs)
  induction p generalizing o l s with
  | ret | raise => trivial
  | await c k ih => exact ⟨fun hs => h (hrun (.await c k) o l s hs), ih _ h⟩

variable {need commit : M.Cmd → Bool} {possible : (c : M.Cmd) → Except M.Err (M.Res c) → Prop}
  (hpossible : ∀ c o l s, possible c (M.exec t c o l s).1) {q : CommitPhase}
  (hp : Settles need commit possible p q)

include hpossible hp

lemma run_of_failed (hq : q = .failed) : ∃ e, (M.run t p o l s).1 = .error e := by
  subst hq
  induction p generalizing o l s with
  | ret | raise => exact hp
  | await c k ih =>
    refine ih _ ?_
    have hc : commit c = false := Bool.eq_false_iff.mpr fun hc => nomatch hp.1 hc
    have hk := hp.step (hpossible c (o 0) l s)
    cases hr : (M.exec t c (o 0) l s).1 with
    | ok | error => simpa [hr, hc] using hk

lemma along_of_follows (hneed : ∀ c, need c = true → commit c = false) {a : α}
    (hrun : (M.run t p o l s).1 = .ok a) :
    Along (fun c o l s => need c = true → ∃ b, (M.exec t c o l s).1 = .ok b) t p o l s := by
  induction p generalizing q o l s with
  | ret | raise => trivial
  | await c k ih =>
    have hk := hp.step (hpossible c (o 0) l s)
    refine ⟨fun hc => ?_, ih _ hk hrun⟩
    cases hr : (M.exec t c (o 0) l s).1 with
    | ok b => exact ⟨b, rfl⟩
    | error e =>
      obtain ⟨e', he'⟩ := run_of_failed (o := fun n => o (n + 1)) hpossible hk
        (by simp [hr, hc, hneed c hc])
      cases he'.symm.trans hrun

lemma unchanged_of_follows
    (hquiet : ∀ c o l s, commit c = false → changed (M.exec t c o l s).2.2 → changed s)
    (hfail : ∀ n c l s e, commit c = true → (M.exec t c (o n) l s).1 = .error e →
      changed (M.exec t c (o n) l s).2.2 → changed s)
    (hok : Along (fun c o l s => changed s → need c = true → ∃ a, (M.exec t c o l s).1 = .ok a)
      t p o l s) (hs : changed s → q = .done) (hrun : (M.run t p o l s).1 = .error e) :
    ¬ changed (M.run t p o l s).2.2 := by
  induction p generalizing q o l s with
  | ret => cases hrun
  | raise =>
    intro h
    obtain rfl := hs h
    obtain ⟨a, ha⟩ := hp
    cases ha
  | await c k ih =>
    refine ih _ (hp.step (hpossible c (o 0) l s)) (fun n => hfail (n + 1)) hok.2 ?_ hrun
    intro hchanged
    cases hc : commit c with
    | false =>
      -- the change was there before, and the request is answered if it is needed
      have hbefore := hquiet c (o 0) l s hc hchanged
      have hanswered := hok.1 hbefore
      cases hr : (M.exec t c (o 0) l s).1 with
      | ok => simpa [hc] using hs hbefore
      | error =>
        have hn : need c = false := Bool.eq_false_iff.mpr fun hn => by
          obtain ⟨a, ha⟩ := hanswered hn
          cases ha.symm.trans hr
        simpa [hc, hn] using hs hbefore
    | true =>
      cases hr : (M.exec t c (o 0) l s).1 with
      | ok => simp [hc]
      | error e =>
        obtain rfl := hs (hfail 0 c l s e hc hr hchanged)
        cases hp.1 hc

variable (changed) in
/-- **A program that raises** has changed nothing exactly if, once there is a change, every request
of `need` is answered. -/
theorem unchanged_iff (hneed : ∀ c, need c = true → commit c = false)
    (hquiet : ∀ c o l s, commit c = false → changed (M.exec t c o l s).2.2 → changed s)
    (hstay : ∀ c o l s, changed s → changed (M.exec t c o l s).2.2)
    (hfail : ∀ n c l s e, commit c = true → (M.exec t c (o n) l s).1 = .error e →
      changed (M.exec t c (o n) l s).2.2 → changed s) (hs : ¬ changed s) :
    (∀ e, (M.run t p o l s).1 = .error e → ¬ changed (M.run t p o l s).2.2) ↔
      Along (fun c o l s => changed s → need c = true → ∃ a, (M.exec t c o l s).1 = .ok a) t p o l
        s := by
  constructor
  · intro h
    cases hrun : (M.run t p o l s).1 with
    | ok =>
      exact (along_of_follows hpossible hp hneed hrun).mono fun _ _ _ _ hok _ => hok
    | error e =>
      exact (along_of_unchanged hstay (h e hrun)).mono fun _ _ _ _ hno hyes => absurd hyes hno
  · intro h e hrun
    exact unchanged_of_follows hpossible hp hquiet hfail h (fun h => absurd h hs) hrun

end Along

end Machine

end Async
end CleanArch
