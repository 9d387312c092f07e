import Mathlib.Logic.Function.Basic

/-!
# Programs that await

A coroutine is interrupted only at its awaits, and every await is one atomic request to the world.

- **Programs** (`Prog C R E α`). A running program awaits a request `c : C`; the answer is a value
  of `R c` or an exception, and the continuation may handle either. `Prog` is a monad, so that a
  translated coroutine reads as its source does.
- **Machines** (`Machine`). The state that all programs share, the local state of each program, and
  what one request does (`exec`). What the source leaves open is in the answer `Out` of the world.
- **A run alone** (`Machine.run`). One program, with nothing between its requests.
-/

namespace CleanArch
namespace Async

abbrev Tid := Nat

/-- A program that awaits requests of `C`, answered in `R`, with exceptions of `E` (module
doc). -/
inductive Prog (C : Type) (R : C → Type) (E α : Type) where
  | ret (a : α)
  | raise (e : E)
  | await (c : C) (k : Except E (R c) → Prog C R E α)

namespace Prog

variable {C : Type} {R : C → Type} {E α β : Type}

/-- `p`, then `f` with its result. -/
def bind : Prog C R E α → (α → Prog C R E β) → Prog C R E β
  | .ret a, f => f a
  | .raise e, _ => .raise e
  | .await c k, f => .await c fun r => (k r).bind f

/-- `try p except e: h e`. -/
def handle : Prog C R E α → (E → Prog C R E α) → Prog C R E α
  | .ret a, _ => .ret a
  | .raise e, h => h e
  | .await c k, h => .await c fun r => (k r).handle h

/-- `p`, with its exception as a result. -/
def attempt : Prog C R E α → Prog C R E (Except E α)
  | .ret a => .ret (.ok a)
  | .raise e => .ret (.error e)
  | .await c k => .await c fun r => (k r).attempt

instance : Monad (Prog C R E) where
  pure := .ret
  bind := Prog.bind

instance : MonadExceptOf E (Prog C R E) where
  throw := .raise
  tryCatch := Prog.handle

def ofExcept : Except E α → Prog C R E α
  | .ok a => .ret a
  | .error e => .raise e

/-- `try: p finally: last`. -/
def ensure (p : Prog C R E α) (last : Prog C R E Unit) : Prog C R E α :=
  p.attempt.bind fun r => last.bind fun _ => ofExcept r

/-- `if p: raise e`. -/
def raiseIf (p : Prop) [Decidable p] (e : E) : Prog C R E Unit := if p then .raise e else .ret ()

def call (c : C) : Prog C R E (R c) := .await c ofExcept

@[simp, grind =] lemma pure_eq : (pure a : Prog C R E α) = .ret a := rfl

@[simp, grind =] lemma throw_eq : (throw e : Prog C R E α) = .raise e := rfl

variable (p : Prog C R E α)

@[simp] lemma bind_eq (f : α → Prog C R E β) : p >>= f = p.bind f := rfl

lemma bind_ret : p.bind .ret = p := by
  induction p with
  | ret | raise => rfl
  | await c k ih => exact congrArg (Prog.await c) (funext ih)

lemma bind_assoc {γ : Type} (f : α → Prog C R E β) (g : β → Prog C R E γ) :
    (p.bind f).bind g = p.bind fun a => (f a).bind g := by
  induction p with
  | ret | raise => rfl
  | await c k ih => exact congrArg (Prog.await c) (funext ih)

/-! ### What a program can request and raise -/

/-- Every request of the program is in `okC`, and every exception that leaves it is in `okE` as
long as those of its requests are. -/
@[grind] def Within (okC : C → Prop) (okE : E → Prop) : Prog C R E α → Prop
  | .ret _ => True
  | .raise e => okE e
  | .await c k => okC c ∧ ∀ r, (∀ e, r = .error e → okE e) → (k r).Within okC okE

/-- All requests are in `okC`. -/
abbrev Only (okC : C → Prop) (p : Prog C R E α) : Prop := p.Within okC fun _ => True

section Within

variable {p : Prog C R E α}

lemma Within.mono {okC' : C → Prop} (hp : p.Within okC okE) (h : ∀ c, okC c → okC' c) :
    p.Within okC' okE := by
  induction p with
  | ret => trivial
  | raise => exact hp
  | await c k ih => exact ⟨h c hp.1, fun r hr => ih r (hp.2 r hr)⟩

@[grind ←] lemma within_bind {f : α → Prog C R E β} (hp : p.Within okC okE)
    (hf : ∀ a, (f a).Within okC okE) : (p.bind f).Within okC okE := by
  induction p with
  | ret a => exact hf a
  | raise => exact hp
  | await c k ih => exact ⟨hp.1, fun r hr => ih r (hp.2 r hr)⟩

@[grind ←] lemma within_handle {h : E → Prog C R E α} (hp : p.Within okC okE)
    (hh : ∀ e, okE e → (h e).Within okC okE) : (p.handle h).Within okC okE := by
  induction p with
  | ret => trivial
  | raise e => exact hh e hp
  | await c k ih => exact ⟨hp.1, fun r hr => ih r (hp.2 r hr)⟩

@[grind ←] lemma within_attempt (hp : p.Within okC okE) : p.attempt.Within okC okE := by
  induction p with
  | ret | raise => trivial
  | await c k ih => exact ⟨hp.1, fun r hr => ih r (hp.2 r hr)⟩

@[grind ←] lemma within_call {c : C} (hc : okC c) : (call c : Prog C R E (R c)).Within okC okE := by
  refine ⟨hc, fun r hr => ?_⟩
  cases r with
  | ok => trivial
  | error e => exact hr e rfl

lemma within_call_bind {c : C} {f : R c → Prog C R E β} (hc : okC c)
    (hf : ∀ r, (f r).Within okC okE) : ((call c).bind f).Within okC okE :=
  within_bind (within_call hc) hf

lemma within_ite {p : Prop} [Decidable p] {x y : Prog C R E α} (hx : p → x.Within okC okE)
    (hy : ¬ p → y.Within okC okE) : (if p then x else y).Within okC okE := by
  split
  · exact hx ‹_›
  · exact hy ‹_›

@[grind ←] lemma within_ofExcept {x : Except E α} (h : ∀ e, x = .error e → okE e) :
    (ofExcept x : Prog C R E α).Within okC okE := by
  cases x with
  | ok => trivial
  | error e => exact h e rfl

@[grind ←] lemma within_raiseIf {p : Prop} [Decidable p] {e : E} (h : okE e) :
    (raiseIf p e : Prog C R E Unit).Within okC okE :=
  within_ite (fun _ => h) fun _ => trivial

end Within

def next? : Prog C R E α → Option C
  | .await c _ => some c
  | _ => none

def result? : Prog C R E α → Option (Except E α)
  | .ret a => some (.ok a)
  | .raise e => some (.error e)
  | .await _ _ => none

lemma ended_or_awaits : p.next? = none ∨ ∃ c k, p = .await c k := by
  cases p with
  | ret | raise => exact .inl rfl
  | await c k => exact .inr ⟨c, k, rfl⟩

lemma awaits_of_next {p : Prog C R E α} {c : C} (h : p.next? = some c) : ∃ k, p = .await c k := by
  rcases p.ended_or_awaits with hn | ⟨c', k, rfl⟩
  · rw [hn] at h
    cases h
  · cases h
    exact ⟨k, rfl⟩

lemma result_of_ended {p : Prog C R E α} (h : p.next? = none) : ∃ r, p.result? = some r := by
  cases p with
  | ret | raise => exact ⟨_, rfl⟩
  | await => cases h

end Prog

structure Machine where
  Cmd : Type
  Res : Cmd → Type
  Err : Type
  Loc : Type
  Sh : Type
  Out : Type
  /-- The request `c` of program `t`. -/
  exec : Tid → (c : Cmd) → Out → Loc → Sh → Except Err (Res c) × Loc × Sh

namespace Machine

variable (M : Machine)

abbrev Prog (α : Type) := Async.Prog M.Cmd M.Res M.Err α

/-- Program `p` of `t` from its start to its end, alone; the world's choices are `o`. -/
def run {α : Type} (t : Tid) :
    M.Prog α → (Nat → M.Out) → M.Loc → M.Sh → Except M.Err α × M.Loc × M.Sh
  | .ret a, _, l, s => (.ok a, l, s)
  | .raise e, _, l, s => (.error e, l, s)
  | .await c k, o, l, s =>
    run t (k (M.exec t c (o 0) l s).1) (fun n => o (n + 1)) (M.exec t c (o 0) l s).2.1
      (M.exec t c (o 0) l s).2.2

end Machine

/-!
## What a program may do

The other direction of `Within`, from a program to its parts.
-/

namespace Prog

variable {C : Type} {R : C → Type} {E α β : Type}

/-- Some answers lead to the result `b`. -/
def MayReturn : Prog C R E α → α → Prop
  | .ret a, b => a = b
  | .raise _, _ => False
  | .await _ k, b => ∃ x, (k (.ok x)).MayReturn b

variable {p : Prog C R E α}

lemma Within.of_bind (h : (p.bind f).Within okC okE) : p.Within okC okE := by
  induction p with
  | ret => trivial
  | raise => exact h
  | await c k ih => exact ⟨h.1, fun r hr => ih r (h.2 r hr)⟩

lemma Within.rest (h : (p.bind f).Within okC okE) {a : α} (ha : p.MayReturn a) :
    (f a).Within okC okE := by
  induction p with
  | ret a' =>
    cases (ha : a' = a)
    exact h
  | raise => exact ha.elim
  | await c k ih =>
    obtain ⟨x, hx⟩ := ha
    exact ih _ (h.2 (.ok x) nofun) hx

end Prog

end Async
end CleanArch
