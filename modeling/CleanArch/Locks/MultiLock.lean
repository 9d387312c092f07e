import CleanArch.Assoc.Ordered
import CleanArch.Async.Rely
import Mathlib.Data.Char
import Mathlib.Data.List.Lex
import Mathlib.Data.List.Sort

/-!
# Several locks at once

`acquire_multiple` of `AsyncDistributedLock` (`app/core/distributed_lock.py`) with its exits: the
body ends, raises, or the task is cancelled at one of its awaits (`LockCmd`). The loop of `acquire`
ends at a deadline; the model has the number of tries before it, for any number.
-/

namespace CleanArch
namespace Locks

open Assoc Async Prog Protocol Sys

def lockKey (resourceKey : String) : String :=
  if "lock:".toList.isPrefixOf resourceKey.toList then resourceKey else "lock:" ++ resourceKey

structure LockToken where
  task : Tid
  resource : String
  deriving DecidableEq

abbrev Redis := List (String × LockToken)

inductive Raised where
  /-- `LockAcquisitionTimeoutException`. -/
  | lockAcquisitionTimeout (message resourceKey : String)
  | exception (n : Nat)
  /-- `asyncio.CancelledError`, for every `BaseException` that is no `Exception`. -/
  | cancelled
  deriving DecidableEq

inductive LockCmd where
  | setNx (resourceKey : String)
  | sleep
  | body
  | evalRelease (resourceKey : String)
  deriving DecidableEq

def LockCmd.Res : LockCmd → Type
  | .setNx _ => Bool
  | .sleep => Unit
  | .body => Unit
  | .evalRelease _ => Bool

inductive Delivery where
  | done
  | raises (n : Nat)
  /-- The task is cancelled; `applied`: its command has reached Redis. -/
  | cancel (applied : Bool)

/-- `SET key token NX`. -/
def setIfAbsent (t : Tid) (resourceKey : String) (s : Redis) : Bool × Redis :=
  match find s (lockKey resourceKey) with
  | none => (true, set s (lockKey resourceKey) ⟨t, resourceKey⟩)
  | some _ => (false, s)

/-- The script of `release`: `DEL` if the key has the token. -/
def deleteIfToken (t : Tid) (resourceKey : String) (s : Redis) : Bool × Redis :=
  if find s (lockKey resourceKey) = some ⟨t, resourceKey⟩ then
    (true, erase s (lockKey resourceKey))
  else (false, s)

/-- One await of task `t`. -/
def LockCmd.exec (t : Tid) : (c : LockCmd) → Delivery → Redis → Except Raised c.Res × Redis
  | .setNx r, .cancel applied, s =>
    (.error .cancelled, if applied then (setIfAbsent t r s).2 else s)
  | .setNx r, _, s => (.ok (setIfAbsent t r s).1, (setIfAbsent t r s).2)
  | .sleep, .cancel _, s => (.error .cancelled, s)
  | .sleep, _, s => (.ok (), s)
  | .body, .cancel _, s => (.error .cancelled, s)
  | .body, .raises n, s => (.error (.exception n), s)
  | .body, .done, s => (.ok (), s)
  | .evalRelease r, _, s => (.ok (deleteIfToken t r s).1, (deleteIfToken t r s).2)

def lockMachine : Machine where
  Cmd := LockCmd
  Res := LockCmd.Res
  Err := Raised
  Loc := Unit
  Sh := Redis
  Out := Delivery
  exec t c o l s := ((c.exec t o s).1, l, (c.exec t o s).2)

abbrev LockProg := Async.Prog LockCmd LockCmd.Res Raised

def redisSet (resourceKey : String) : LockProg Bool := call (LockCmd.setNx resourceKey)

def redisEval (resourceKey : String) : LockProg Bool := call (LockCmd.evalRelease resourceKey)

def pause : LockProg Unit := call LockCmd.sleep

def body : LockProg Unit := call LockCmd.body

/-! ## The lock -/

section Methods

variable {Cmd : Type} {Res : Cmd → Type} {Err α : Type}

/-- The loop of `acquire`, which tries at most `tries + 1` times before its deadline. -/
def acquireLoop (set : Async.Prog Cmd Res Err Bool) (sleep : Async.Prog Cmd Res Err Unit)
    (timeout : Err) (token : α) : Nat → Async.Prog Cmd Res Err α
  | 0 => do
    if ← set then return token
    else throw timeout
  | tries + 1 => do
    if ← set then return token
    else
      sleep
      acquireLoop set sleep timeout token tries

/-- `release`; `except Exception: return False` does not catch a cancellation. -/
def releaseScript [DecidableEq Err] (eval : Async.Prog Cmd Res Err Bool) (cancelled : Err) :
    Async.Prog Cmd Res Err Bool :=
  eval.handle fun e => if e = cancelled then .raise e else .ret false

end Methods

def acquire (timeout resourceKey : String) : Nat → LockProg Unit :=
  acquireLoop (redisSet resourceKey) pause (.lockAcquisitionTimeout
    ("Unable to acquire distributed lock for '" ++ resourceKey ++ "' within " ++ timeout ++
      "s timeout.") resourceKey) ()

def release (resourceKey : String) : LockProg Bool :=
  releaseScript (redisEval resourceKey) .cancelled

def releaseAll : List String → LockProg Unit
  | [] => return ()
  | r :: rs => do
    let _ ← release r
    releaseAll rs

/-- `except Exception:` of `acquire_multiple`: the rollback, and `raise`. -/
def rollback {α : Type} (acquired : List String) : Raised → LockProg α
  | .cancelled => .raise .cancelled
  | e => do
    releaseAll acquired
    throw e

/-- `acquire_multiple` from the keys that are still to be taken; `acquired` has the last one
first. -/
def acquireMultipleFrom (timeout : String) (tries : String → Nat) :
    List String → List String → LockProg Unit
  | [], acquired => do
    body.handle (rollback acquired)
    releaseAll acquired
  | r :: rest, acquired => do
    (acquire timeout r (tries r)).handle (rollback acquired)
    acquireMultipleFrom timeout tries rest (r :: acquired)

/-- `sorted(set(resource_keys))`. -/
def uniqueSortedKeys (resourceKeys : List String) : List String :=
  resourceKeys.dedup.insertionSort fun a b => a.toList ≤ b.toList

/-- `async with acquire_multiple(resource_keys): body`. -/
def acquireMultiple (timeout : String) (tries : String → Nat) (resourceKeys : List String) :
    LockProg Unit :=
  acquireMultipleFrom timeout tries (uniqueSortedKeys resourceKeys) []

def lockSys (timeout : String) (tries : Tid → String → Nat) (resourceKeys : Tid → List String) :
    Sys where
  toMachine := lockMachine
  Env := Empty
  env e := e.elim
  A := Unit
  prog t := acquireMultiple timeout (tries t) (resourceKeys t)
  loc _ := ()

/-! ## What an await changes -/

/-- The locks of task `t` are those of `acquired`, at most. -/
def Owns (t : Tid) (acquired : List String) (s : Redis) : Prop :=
  ∀ k r, find s k = some ⟨t, r⟩ → k = lockKey r ∧ r ∈ acquired

/-- No lock of task `t` is held. -/
def Clean (t : Tid) (s : Redis) : Prop := ∀ k r, find s k ≠ some ⟨t, r⟩

/-- Both states have the same locks of task `t`. -/
def SameLocks (t : Tid) (s s' : Redis) : Prop :=
  ∀ k r, find s' k = some ⟨t, r⟩ ↔ find s k = some ⟨t, r⟩

lemma clean_iff_owns_nil : Clean t s ↔ Owns t [] s := by
  constructor
  · exact fun h k r hk => absurd hk (h k r)
  · exact fun h k r hk => List.not_mem_nil (h k r hk).2

variable {acquired : List String}

lemma SameLocks.owns (h : SameLocks t s s') (ho : Owns t acquired s) : Owns t acquired s' :=
  fun k r hk => ho k r ((h k r).mp hk)

lemma setIfAbsent_sameLocks (hu : u ≠ t) : SameLocks u s (setIfAbsent t r s).2 := by
  intro k r'
  unfold setIfAbsent
  split
  · next hnone =>
    rw [find_set]
    split
    · next hk =>
      rw [← eq_of_beq hk, hnone]
      simp [Ne.symm hu]
    · rfl
  · rfl

lemma deleteIfToken_sameLocks (hu : u ≠ t) : SameLocks u s (deleteIfToken t r s).2 := by
  intro k r'
  unfold deleteIfToken
  split
  · next htoken =>
    rw [find_erase]
    split
    · next hk =>
      rw [← eq_of_beq hk, htoken]
      simp [Ne.symm hu]
    · rfl
  · rfl

lemma LockCmd.exec_sameLocks (hu : u ≠ t) (c : LockCmd) (o : Delivery) (s : Redis) :
    SameLocks u s (c.exec t o s).2 := by
  cases c with
  | setNx r =>
    cases o with
    | done | raises => exact setIfAbsent_sameLocks hu
    | cancel applied =>
      cases applied with
      | false => exact fun _ _ => Iff.rfl
      | true => exact setIfAbsent_sameLocks hu
  | sleep | body => cases o <;> exact fun _ _ => Iff.rfl
  | evalRelease r => cases o <;> exact deleteIfToken_sameLocks hu

lemma setIfAbsent_owns (h : Owns t acquired s) :
    Owns t (if (setIfAbsent t r s).1 then r :: acquired else acquired) (setIfAbsent t r s).2 := by
  unfold setIfAbsent
  split
  · intro k r' hk
    rw [find_set] at hk
    split at hk
    · next hkey =>
      cases hk
      exact ⟨(eq_of_beq hkey).symm, List.mem_cons_self⟩
    · exact ⟨(h k r' hk).1, List.mem_cons_of_mem _ (h k r' hk).2⟩
  · exact h

lemma deleteIfToken_owns (h : Owns t (r :: acquired) s) :
    Owns t acquired (deleteIfToken t r s).2 := by
  unfold deleteIfToken
  split
  · intro k r' hk
    rw [find_erase] at hk
    split at hk
    · cases hk
    · next hkey =>
      obtain ⟨rfl, hr⟩ := h k r' hk
      rcases List.mem_cons.mp hr with rfl | hr
      · exact absurd (beq_self_eq_true _) hkey
      · exact ⟨rfl, hr⟩
  · next hne =>
    intro k r' hk
    obtain ⟨rfl, hr⟩ := h k r' hk
    rcases List.mem_cons.mp hr with rfl | hr
    · exact absurd hk hne
    · exact ⟨rfl, hr⟩

/-! ## Cancelled while clean: clean in the end -/

/-- Where the await raises `CancelledError`, no lock of the task is held. -/
def Quiet (t : Tid) (c : LockCmd) (o : Delivery) (s : Redis) : Prop :=
  (c.exec t o s).1 = .error .cancelled → Clean t (c.exec t o s).2

/-- The tasks leave each other's locks; the awaits of `t0` are quiet. -/
def lockProtocol (t0 : Tid) : Protocol lockMachine where
  rely := SameLocks
  ok t c _ s o := t = t0 → Quiet t c o s
  refl _ _ _ _ := Iff.rfl
  trans _ _ _ _ h1 h2 k r := (h2 k r).trans (h1 k r)

section Wp

variable {t : Tid} {s : Redis}

lemma keeps (c : LockCmd) (o : Delivery) (l : Unit) (s : Redis) :
    (lockProtocol t).Keeps t c o l s :=
  ⟨trivial, trivial, fun _ hu => c.exec_sameLocks hu o s⟩

/-- What a task owns when it gets to a result: `acquired`, or nothing once it is cancelled. -/
def After {α : Type} (t : Tid) (kept : List String) (lost : List String) (r : Except Raised α)
    (_ : Unit) (s : Redis) : Prop :=
  match r with
  | .ok _ => Owns t kept s
  | .error .cancelled => Owns t [] s
  | .error _ => Owns t lost s

variable {α : Type}

lemma stable_after : (lockProtocol t).Stable t (After (α := α) t kept lost) := by
  intro r l s s' h hr
  unfold After at h ⊢
  split at h <;> exact hr.rely.owns h

lemma wp_redisSet (hQ : (lockProtocol t).Stable t Q) (h : Owns t acquired s)
    {k : Bool → LockProg α} (hok : ∀ b s', Owns t (if b then r :: acquired else acquired) s' →
      (lockProtocol t).wp t (k b) Q () s')
    (herr : ∀ s', Owns t [] s' → Q (.error .cancelled) () s') :
    (lockProtocol t).wp t ((redisSet r).bind k) Q () s := by
  refine hQ.call_bind fun s' o hr _ hquiet => ⟨keeps _ _ _ _, ?_⟩
  have hs' := hr.owns h
  cases o with
  | done | raises => exact hok _ _ (setIfAbsent_owns hs')
  | cancel => exact herr _ (clean_iff_owns_nil.mp (hquiet rfl rfl))

lemma wp_pause (hQ : (lockProtocol t).Stable t Q) (h : Owns t acquired s) {k : Unit → LockProg α}
    (hok : ∀ s', Owns t acquired s' → (lockProtocol t).wp t (k ()) Q () s')
    (herr : ∀ s', Owns t [] s' → Q (.error .cancelled) () s') :
    (lockProtocol t).wp t (pause.bind k) Q () s := by
  refine hQ.call_bind fun s' o hr _ hquiet => ⟨keeps _ _ _ _, ?_⟩
  have hs' := hr.owns h
  cases o with
  | done | raises => exact hok _ hs'
  | cancel => exact herr _ (clean_iff_owns_nil.mp (hquiet rfl rfl))

lemma wp_body (h : Owns t acquired s) :
    (lockProtocol t).wp t body (After t acquired acquired) () s := by
  refine wp_call fun s' o hr _ hquiet => ⟨keeps _ _ _ _, fun s'' hr' _ => ?_⟩
  refine stable_after _ _ _ s'' ?_ ⟨hr', trivial⟩
  cases o with
  | done | raises => exact hr.owns h
  | cancel => exact clean_iff_owns_nil.mp (hquiet rfl rfl)

lemma wp_acquire (h : Owns t acquired s) :
    (lockProtocol t).wp t (acquire timeout r tries) (After t (r :: acquired) acquired) () s := by
  induction tries generalizing s with
  | zero =>
    refine wp_redisSet stable_after h (fun b s' hs' => ?_) fun s' hs' => hs'
    cases b with
    | true => exact stable_after.ret hs'
    | false => exact stable_after.raise hs'
  | succ tries ih =>
    refine wp_redisSet stable_after h (fun b s' hs' => ?_) fun s' hs' => hs'
    cases b with
    | true => exact stable_after.ret hs'
    | false => exact wp_pause stable_after hs' (fun s'' hs'' => ih hs'') fun s'' hs'' => hs''

lemma wp_releaseAll {k : Unit → LockProg α}
    (hk : ∀ s', Owns t [] s' → (lockProtocol t).wp t (k ()) Q () s') (h : Owns t acquired s) :
    (lockProtocol t).wp t ((releaseAll acquired).bind k) Q () s := by
  induction acquired generalizing s with
  | nil => exact hk s h
  | cons r rs ih =>
    intro s' o hr _ _
    refine ⟨keeps _ _ _ _, ?_⟩
    have hs' := deleteIfToken_owns (hr.owns h)
    cases o <;> exact ih hs'

lemma wp_others : (lockProtocol t).wp u p (fun _ _ _ => True) l s := by
  induction p generalizing l s with
  | ret | raise => exact fun _ _ _ => trivial
  | await c k ih =>
    exact fun s' o _ _ _ =>
      ⟨⟨trivial, trivial, fun _ hv => c.exec_sameLocks hv o s'⟩, ih _⟩

lemma wp_guarded {p : LockProg Unit} (hp : (lockProtocol t).wp t p (After t kept acquired) () s) :
    (lockProtocol t).wp t (p.handle (rollback acquired)) (fun r _ s => match r with
        | .ok _ => Owns t kept s
        | .error _ => Owns t [] s) () s := by
  have hstable : (lockProtocol t).Stable t
      (fun (r : Except Raised Unit) (_ : Unit) s => match r with
        | .ok _ => Owns t kept s
        | .error _ => Owns t [] s) := by
    intro r l s s' h hr
    cases r with
    | ok | error => exact hr.rely.owns h
  refine wp_handle (wp_mono hp fun r l s _ h => ?_)
  cases r with
  | ok => exact h
  | error e =>
    cases e with
    | cancelled => exact hstable.raise h
    | exception | lockAcquisitionTimeout => exact wp_releaseAll (fun s' hs' => hstable.raise hs') h

lemma wp_acquireMultipleFrom (h : Owns t acquired s) :
    (lockProtocol t).wp t (acquireMultipleFrom timeout tries keys acquired)
      (fun _ _ s => Owns t [] s) () s := by
  induction keys generalizing acquired s with
  | nil =>
    refine wp_bind (wp_mono (wp_guarded (wp_body h)) fun r l s _ h => ?_)
    cases r with
    | error => exact h
    | ok =>
      rw [← bind_ret (releaseAll acquired)]
      exact wp_releaseAll (fun s' hs' s'' hr _ => hr.owns hs') h
  | cons r rest ih =>
    refine wp_bind (wp_mono (wp_guarded (wp_acquire h)) fun r l s _ h => ?_)
    cases r with
    | error => exact h
    | ok => exact ih h

end Wp

/-! ## Cancelled with a lock: the lock stays -/

def Mortal {α : Type} : LockProg α → Prop
  | .await _ k => k (.error .cancelled) = .raise .cancelled ∧ ∀ r, Mortal (k r)
  | _ => True

section Mortal

variable {α β : Type}

lemma Mortal.ended {k : Except Raised c.Res → LockProg α} (h : Mortal (.await c k))
    (hx : x = .error .cancelled) : (k x).next? = none := by
  rw [hx, h.1]
  rfl

lemma mortal_ofExcept (x : Except Raised α) : Mortal (Prog.ofExcept x) := by
  cases x with
  | ok | error => trivial

lemma mortal_call (c : LockCmd) : Mortal (call c) := ⟨rfl, mortal_ofExcept⟩

lemma mortal_bind {p : LockProg α} {f : α → LockProg β} (hp : Mortal p)
    (hf : ∀ a, Mortal (f a)) : Mortal (p.bind f) := by
  induction p with
  | ret a => exact hf a
  | raise => trivial
  | await c k ih =>
    refine ⟨?_, fun r => ih r (hp.2 r)⟩
    simp only [hp.1]
    rfl

lemma mortal_handle {p : LockProg α} {h : Raised → LockProg α} (hp : Mortal p)
    (hh : ∀ e, Mortal (h e)) (hc : h .cancelled = .raise .cancelled) : Mortal (p.handle h) := by
  induction p with
  | ret => trivial
  | raise e => exact hh e
  | await c k ih =>
    refine ⟨?_, fun r => ih r (hp.2 r)⟩
    simp only [hp.1]
    exact hc

lemma mortal_acquire (timeout r : String) (tries : Nat) : Mortal (acquire timeout r tries) := by
  induction tries with
  | zero =>
    refine mortal_bind (mortal_call _) fun b => ?_
    cases b with
    | true | false => trivial
  | succ tries ih =>
    refine mortal_bind (mortal_call _) fun b => ?_
    cases b with
    | true => trivial
    | false => exact mortal_bind (mortal_call _) fun _ => ih

lemma mortal_releaseAll (acquired : List String) : Mortal (releaseAll acquired) := by
  induction acquired with
  | nil => trivial
  | cons r rs ih =>
    refine mortal_bind (mortal_handle (mortal_call _) (fun e => ?_) rfl) fun _ => ih
    cases e <;> trivial

lemma mortal_rollback (acquired : List String) (e : Raised) :
    Mortal (rollback acquired e : LockProg α) := by
  cases e with
  | cancelled => trivial
  | exception | lockAcquisitionTimeout => exact mortal_bind (mortal_releaseAll _) fun _ => trivial

lemma mortal_acquireMultipleFrom (acquired : List String) :
    Mortal (acquireMultipleFrom timeout tries keys acquired) := by
  induction keys generalizing acquired with
  | nil =>
    exact mortal_bind (mortal_handle (mortal_call _) (mortal_rollback acquired) rfl)
      fun _ => mortal_releaseAll acquired
  | cons r rest ih =>
    exact mortal_bind (mortal_handle (mortal_acquire _ _ _) (mortal_rollback acquired) rfl)
      fun _ => ih _

end Mortal

section Runs

variable {timeout : String} {tries : Tid → String → Nat} {resourceKeys : Tid → List String}

variable {c : (lockSys timeout tries resourceKeys).Config}

lemma step_ended_sameLocks (h : (c.thr t).2.next? = none) :
    SameLocks t c.sh (step c e).sh ∧ ((step c e).thr t).2.next? = none := by
  cases e with
  | world e => exact e.elim
  | turn u o =>
    by_cases hu : t = u
    · subst hu
      rw [step_ended h]
      exact ⟨fun _ _ => Iff.rfl, h⟩
    · refine ⟨?_, by rw [step_thr hu]; exact h⟩
      rcases (c.thr u).2.ended_or_awaits with hn | ⟨r, k, hp⟩
      · rw [step_ended hn]
        exact fun _ _ => Iff.rfl
      · rw [step_await hp]
        exact LockCmd.exec_sameLocks hu r o c.sh

lemma run_ended_sameLocks (h : (c.thr t).2.next? = none) : SameLocks t c.sh (run c es).sh := by
  induction es generalizing c with
  | nil => exact fun _ _ => Iff.rfl
  | cons e es ih =>
    obtain ⟨hsame, hended⟩ := step_ended_sameLocks h
    exact fun k r => (ih hended k r).trans (hsame k r)

/-- The events in which task `t` raises no `CancelledError` while it holds a lock. -/
abbrev quietEvent (t : Tid) : (lockSys timeout tries resourceKeys).Config →
    (lockSys timeout tries resourceKeys).Event → Prop :=
  Asks (fun u r _ s o => u = t → Quiet u r o s) fun _ _ => True

lemma runOk_of_clean (hm : Mortal (c.thr t).2) (h : Clean t (run c es).sh) :
    RunOk (quietEvent t) c es := by
  induction es generalizing c with
  | nil => trivial
  | cons e es ih =>
    cases e with
    | world e => exact e.elim
    | turn u o =>
      by_cases hu : t = u
      · subst hu
        rcases (c.thr t).2.ended_or_awaits with hn | ⟨r, k, hp⟩
        · refine ⟨fun r hr => absurd (hn.symm.trans hr) (by simp), ih ?_ h⟩
          rw [step_ended hn]
          exact hm
        · rw [hp] at hm
          have hstep := step_await (o := o) hp
          refine ⟨fun r' hr' _ hcancel => ?_, ih ?_ h⟩
          · -- the task ends here, and from here on its locks stay
            rw [hp] at hr'
            cases hr'
            have hended : ((step c (.turn t o)).thr t).2.next? = none := by
              rw [hstep]
              simp only [Function.update_self]
              exact hm.ended hcancel
            intro key res hk
            refine h key res ((run_ended_sameLocks hended key res).mpr ?_)
            rw [hstep]
            exact hk
          · rw [hstep]
            simp only [Function.update_self]
            exact hm.2 _
      · refine ⟨fun r _ hut => absurd hut.symm hu, ih ?_ h⟩
        rw [step_thr hu]
        exact hm

/-- A task that has left `acquire_multiple` holds none of its locks if and only if no
`CancelledError` was raised in it, at an await of the acquisition or in the body, while it held
one. -/
theorem multi_lock_release_iff (timeout : String) (tries : Tid → String → Nat)
    (resourceKeys : Tid → List String) (es : List (lockSys timeout tries resourceKeys).Event)
    (s : Redis) (t : Tid) (hs : Clean t s)
    (hend : ((run (start s) es : (lockSys timeout tries resourceKeys).Config).thr
      t).2.next? = none) :
    Clean t (run (start s) es : (lockSys timeout tries resourceKeys).Config).sh ↔
      RunOk (quietEvent t) (start s) es := by
  constructor
  · exact runOk_of_clean (mortal_acquireMultipleFrom _)
  · intro hquiet
    let Q : Tid → Except Raised Unit → Unit → Redis → Prop :=
      fun u _ _ s => u = t → Owns t [] s
    have hstart : Holds (S := lockSys timeout tries resourceKeys) (lockProtocol t) Q
        (start s) := by
      refine Holds.start trivial fun u => ?_
      by_cases hu : u = t
      · subst hu
        exact wp_mono (wp_acquireMultipleFrom (clean_iff_owns_nil.mp hs)) fun _ _ _ _ h _ => h
      · exact wp_mono (wp_others) fun _ _ _ _ _ h => absurd h hu
    have hholds := sound (fun (e : Empty) _ _ (_ : True) => e.elim) hstart hquiet
    obtain ⟨_, hclean⟩ := hholds.ended hend
    exact clean_iff_owns_nil.mpr (hclean rfl)

end Runs

/-- Task 1 has the second lock, so task 0 times out and releases the first. -/
def timedOut : List (lockSys "3.0" (fun _ _ => 0)
    fun t => if t = 0 then ["account:2", "account:1"] else ["account:2"]).Event :=
  [.turn 1 .done, .turn 0 .done, .turn 0 .done, .turn 0 .done]

theorem multi_lock_release_iff_timedOut :
    Clean 0 [] ∧ ((run (start []) timedOut).thr 0).2.next? = none ∧
      (Clean 0 (run (start []) timedOut).sh ↔ RunOk (quietEvent 0) (start []) timedOut) :=
  ⟨fun _ _ => nofun, by decide +kernel,
    multi_lock_release_iff _ _ _ _ [] 0 (fun _ _ => nofun) (by decide +kernel)⟩

def cancelledBody : List (lockSys "3.0" (fun _ _ => 1) fun _ => ["account:1"]).Event :=
  [.turn 0 .done, .turn 1 .done, .turn 0 (.cancel false)]

/-- The cancelled task has left `acquire_multiple`, and its lock is held. -/
theorem cancelled_body_leaks :
    ((run (start []) cancelledBody).thr 0).2.result? = some (.error .cancelled) ∧
      find (run (start []) cancelledBody).sh "lock:account:1" = some ⟨0, "account:1"⟩ := by
  exact ⟨rfl, rfl⟩

end Locks
end CleanArch
