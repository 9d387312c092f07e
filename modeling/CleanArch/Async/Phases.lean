import CleanArch.Async.Prog

/-!
# Phases of a program

What a program has done so far, as far as its requests and their answers tell: an automaton that
reads them (`Phases`), with the requests that it allows in each phase. `Phases.Follows` says that a
program makes only allowed requests, whatever the world answers, and what holds at its end.
-/

namespace CleanArch
namespace Async

structure Phases (C : Type) (R : C → Type) (E : Type) where
  Phase : Type
  possible : (c : C) → Except E (R c) → Prop
  allowed : Phase → C → Prop
  next : Phase → (c : C) → Except E (R c) → Phase

namespace Phases

variable {C : Type} {R : C → Type} {E α β : Type}

/-- From phase `q`, the program makes only allowed requests and ends with `Q`. -/
def Follows (T : Phases C R E) : Prog C R E α → (Except E α → T.Phase → Prop) → T.Phase → Prop
  | .ret a, Q, q => Q (.ok a) q
  | .raise e, Q, q => Q (.error e) q
  | .await c k, Q, q => T.allowed q c ∧ ∀ r, T.possible c r → Follows T (k r) Q (T.next q c r)

variable {T : Phases C R E} {Q : Except E α → T.Phase → Prop} {q : T.Phase}

lemma Follows.step {c : C} {k : Except E (R c) → Prog C R E α} (h : T.Follows (.await c k) Q q)
    {r : Except E (R c)} (hr : T.possible c r) : T.Follows (k r) Q (T.next q c r) :=
  h.2 r hr

lemma Follows.mono {Q' : Except E α → T.Phase → Prop} (h : T.Follows p Q q)
    (hQ : ∀ r q, Q r q → Q' r q) : T.Follows p Q' q := by
  induction p generalizing q with
  | ret | raise => exact hQ _ _ h
  | await c k ih => exact ⟨h.1, fun r hr => ih r (h.2 r hr)⟩

lemma follows_bind {p : Prog C R E β} {f : β → Prog C R E α}
    (h : T.Follows p (fun r q => match r with
      | .ok b => T.Follows (f b) Q q
      | .error e => Q (.error e) q) q) : T.Follows (p.bind f) Q q := by
  induction p generalizing q with
  | ret | raise => exact h
  | await c k ih => exact ⟨h.1, fun r hr => ih r (h.2 r hr)⟩

lemma follows_handle {f : E → Prog C R E α} (h : T.Follows p (fun r q => match r with
      | .ok a => Q (.ok a) q
      | .error e => T.Follows (f e) Q q) q) : T.Follows (p.handle f) Q q := by
  induction p generalizing q with
  | ret | raise => exact h
  | await c k ih => exact ⟨h.1, fun r hr => ih r (h.2 r hr)⟩

lemma follows_attempt {p : Prog C R E β} {Q : Except E (Except E β) → T.Phase → Prop}
    (h : T.Follows p (fun r q => Q (.ok r) q) q) : T.Follows p.attempt Q q := by
  induction p generalizing q with
  | ret | raise => exact h
  | await c k ih => exact ⟨h.1, fun r hr => ih r (h.2 r hr)⟩

lemma follows_ite [Decidable b] {p p' : Prog C R E α} (hp : b → T.Follows p Q q)
    (hp' : ¬ b → T.Follows p' Q q) : T.Follows (if b then p else p') Q q := by
  split
  · exact hp ‹_›
  · exact hp' ‹_›

lemma follows_call_bind {c : C} {f : R c → Prog C R E α} (hc : T.allowed q c)
    (hok : ∀ a, T.possible c (.ok a) → T.Follows (f a) Q (T.next q c (.ok a)))
    (herr : ∀ e, T.possible c (.error e) → Q (.error e) (T.next q c (.error e))) :
    T.Follows ((Prog.call c).bind f) Q q := by
  refine ⟨hc, fun r hr => ?_⟩
  cases r with
  | ok a => exact hok a hr
  | error e => exact herr e hr

lemma follows_call {c : C} {Q : Except E (R c) → T.Phase → Prop} (hc : T.allowed q c)
    (h : ∀ r, T.possible c r → Q r (T.next q c r)) : T.Follows (Prog.call c) Q q := by
  refine ⟨hc, fun r hr => ?_⟩
  cases r with
  | ok a => exact h (.ok a) hr
  | error e => exact h (.error e) hr

lemma follows_ofExcept {x : Except E α} (h : Q x q) : T.Follows (Prog.ofExcept x) Q q := by
  cases x with
  | ok | error => exact h

/-- What the requests of a program keep, the program keeps. -/
lemma follows_within {okC : C → Prop} {I : T.Phase → Prop}
    (hokC : ∀ q c, I q → okC c → T.allowed q c ∧ ∀ r, I (T.next q c r)) (hp : p.Only okC)
    (hq : I q) : T.Follows p (fun _ q => I q) q := by
  induction p generalizing q with
  | ret | raise => exact hq
  | await c k ih =>
    obtain ⟨hallowed, hnext⟩ := hokC q c hq hp.1
    exact ⟨hallowed, fun r _ => ih r (hp.2 r fun _ _ => trivial) (hnext r)⟩

lemma follows_within_bind {okC : C → Prop} {p : Prog C R E β} {k : β → Prog C R E α}
    (hokC : ∀ c, okC c → T.allowed q c ∧ ∀ r, T.next q c r = q) (hp : p.Only okC)
    (hok : ∀ b, T.Follows (k b) Q q) (herr : ∀ e, Q (.error e) q) : T.Follows (p.bind k) Q q := by
  refine follows_bind ((follows_within (I := (· = q)) ?_ hp rfl).mono ?_)
  · rintro _ c rfl hc
    exact hokC c hc
  rintro r q rfl
  cases r with
  | ok b => exact hok b
  | error e => exact herr e

end Phases

/-!
## Programs over methods

A program whose requests are calls of methods, and each method is a program over the requests of a
machine (`Prog.interp`). What every method keeps, a program of any calls keeps
(`Phases.follows_interp`).
-/

variable {C C' : Type} {R : C → Type} {R' : C' → Type} {E α : Type}

def Prog.interp (code : (c : C) → Prog C' R' E (R c)) : Prog C R E α → Prog C' R' E α
  | .ret a => .ret a
  | .raise e => .raise e
  | .await c k => (code c).attempt.bind fun r => (k r).interp code

lemma Phases.follows_interp {T : Phases C' R' E} {I : T.Phase → Prop}
    {code : (c : C) → Prog C' R' E (R c)}
    (hcode : ∀ c q, I q → T.Follows (code c) (fun _ q => I q) q) (p : Prog C R E α) {q : T.Phase}
    (hq : I q) : T.Follows (p.interp code) (fun _ q => I q) q := by
  induction p generalizing q with
  | ret | raise => exact hq
  | await c k ih =>
    refine follows_bind (follows_attempt ((hcode c q hq).mono ?_))
    intro r q' hq'
    exact ih r hq'

end Async
end CleanArch
