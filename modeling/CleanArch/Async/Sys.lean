import CleanArch.Async.Prog
import CleanArch.Steps.Along

/-!
# Runs of many programs

A system of programs over one machine: program `t` runs `prog t`, for every `t`. At every moment one
program takes its next request, or the world itself moves (a key reaches its TTL). A schedule is a
list of such events, and a run is a function of it (`Sys.run`).
-/

namespace CleanArch
namespace Async

structure Sys extends Machine where
  Env : Type
  env : Env → Sh → Sh
  A : Type
  prog : Tid → Async.Prog Cmd Res Err A
  loc : Tid → Loc

namespace Sys

variable (S : Sys)

structure Config where
  sh : S.Sh
  thr : Tid → S.Loc × S.toMachine.Prog S.A

/-- One event of a schedule: program `t` takes its next request and the world answers `o`, or the
world moves by itself. -/
inductive Event where
  | turn (t : Tid) (o : S.Out)
  | world (e : S.Env)

variable {S}

def start (s : S.Sh) : S.Config := ⟨s, fun t => (S.loc t, S.prog t)⟩

def step (c : S.Config) : S.Event → S.Config
  | .turn t o =>
    match (c.thr t).2 with
    | .await r k =>
      ⟨(S.exec t r o (c.thr t).1 c.sh).2.2, Function.update c.thr t
        ((S.exec t r o (c.thr t).1 c.sh).2.1, k (S.exec t r o (c.thr t).1 c.sh).1)⟩
    | _ => c
  | .world e => { c with sh := S.env e c.sh }

def run (c : S.Config) (es : List S.Event) : S.Config := es.foldl step c

/-- Every event is `ok` in the configuration before it. -/
abbrev RunOk (ok : S.Config → S.Event → Prop) : S.Config → List S.Event → Prop :=
  Steps.Along step ok

/-- The events whose request, where the program has one, is `ok`; `okEnv` for the world's own. -/
def Asks (ok : Tid → S.Cmd → S.Loc → S.Sh → S.Out → Prop) (okEnv : S.Env → S.Sh → Prop)
    (c : S.Config) : S.Event → Prop
  | .turn t o => ∀ r, (c.thr t).2.next? = some r → ok t r (c.thr t).1 c.sh o
  | .world e => okEnv e c.sh

instance {ok : Tid → S.Cmd → S.Loc → S.Sh → S.Out → Prop} {okEnv : S.Env → S.Sh → Prop}
    [∀ t r l s o, Decidable (ok t r l s o)] [∀ e s, Decidable (okEnv e s)] (c : S.Config)
    (e : S.Event) : Decidable (Asks ok okEnv c e) :=
  match e with
  | .turn t o =>
    match h : (c.thr t).2.next? with
    | none => .isTrue fun r hr => by rw [h] at hr; cases hr
    | some r => decidable_of_iff (ok t r (c.thr t).1 c.sh o)
        ⟨fun ht r' hr => by rw [h] at hr; cases hr; exact ht, fun ht => ht r h⟩
  | .world e => inferInstanceAs (Decidable (okEnv e c.sh))

/-- The programs that take a turn in a schedule. -/
def started (es : List S.Event) : List Tid :=
  es.filterMap fun
    | .turn t _ => some t
    | .world _ => none

/-- Program `t` has ended with the result `a`. -/
def Returned (c : S.Config) (t : Tid) (a : S.A) : Prop := (c.thr t).2 = .ret a

lemma returned_of_result (h : (c.thr t).2.result? = some (.ok a)) : Returned c t a := by
  unfold Returned
  cases hp : (c.thr t).2 with
  | ret =>
    rw [hp] at h
    cases h
    rfl
  | raise | await => rw [hp] at h; cases h

@[simp] lemma run_cons (c : S.Config) (e : S.Event) (es : List S.Event) :
    run c (e :: es) = run (step c e) es := rfl

lemma step_await (h : (c.thr t).2 = .await r k) : step c (.turn t o) =
      ⟨(S.exec t r o (c.thr t).1 c.sh).2.2, Function.update c.thr t
        ((S.exec t r o (c.thr t).1 c.sh).2.1, k (S.exec t r o (c.thr t).1 c.sh).1)⟩ := by
  simp only [step, h]

lemma step_ended (h : (c.thr t).2.next? = none) : step c (.turn t o) = c := by
  cases hp : (c.thr t).2 with
  | ret | raise => simp only [step, hp]
  | await => rw [hp] at h; cases h

lemma step_thr (hu : t ≠ u) (c : S.Config) (o : S.Out) : (step c (.turn u o)).thr t = c.thr t := by
  rcases (c.thr u).2.ended_or_awaits with hn | ⟨r, k, hp⟩
  · rw [step_ended hn]
  · rw [step_await hp]
    exact Function.update_of_ne hu _ _

lemma run_thr {es : List S.Event} (h : t ∉ started es) (c : S.Config) :
    (run c es).thr t = c.thr t := by
  induction es generalizing c with
  | nil => rfl
  | cons e es ih =>
    cases e with
    | world => exact ih h _
    | turn u o =>
      have hnot : ¬ (t = u ∨ t ∈ started es) := mt List.mem_cons.mpr h
      obtain ⟨hne, hrest⟩ := not_or.mp hnot
      rw [run_cons, ih hrest, step_thr hne]

end Sys

/-!
## Histories

A claim about the past of a run needs a state that remembers it. An `Observer` keeps a history of
the requests and their answers beside the shared state. The programs do not see it: a run of the
observed system is the run of the system itself, with the history added (`erase_run`).
-/

structure Observer (M : Machine) (Env : Type) where
  H : Type
  /-- Program `t` took the request `c`, with this answer, from the first state to the second. -/
  turn : Tid → (c : M.Cmd) → Except M.Err (M.Res c) → M.Sh → M.Sh → H → H
  world : Env → H → H

@[reducible] def Machine.observed (M : Machine) {Env : Type} (O : Observer M Env) : Machine where
  Cmd := M.Cmd
  Res := M.Res
  Err := M.Err
  Loc := M.Loc
  Sh := M.Sh × O.H
  Out := M.Out
  exec t c o l s :=
    ((M.exec t c o l s.1).1, (M.exec t c o l s.1).2.1, (M.exec t c o l s.1).2.2,
      O.turn t c (M.exec t c o l s.1).1 s.1 (M.exec t c o l s.1).2.2 s.2)

namespace Sys

variable {S : Sys} {O : Observer S.toMachine S.Env}

@[reducible] def observed (S : Sys) (O : Observer S.toMachine S.Env) : Sys where
  toMachine := S.toMachine.observed O
  Env := S.Env
  env e s := (S.env e s.1, O.world e s.2)
  A := S.A
  prog := S.prog
  loc := S.loc

def erase (c : (S.observed O).Config) : S.Config := ⟨c.sh.1, c.thr⟩

def Event.observe (O : Observer S.toMachine S.Env) : S.Event → (S.observed O).Event
  | .turn t o => .turn t o
  | .world e => .world e

lemma erase_step (c : (S.observed O).Config) (e : S.Event) :
    erase (step c (e.observe O)) = step (erase c) e := by
  cases e with
  | world => rfl
  | turn t =>
    rcases (c.thr t).2.ended_or_awaits with hn | ⟨r, k, hp⟩
    · rw [Event.observe, step_ended hn]
      exact (step_ended (c := erase c) hn).symm
    · rw [Event.observe, step_await hp]
      exact (step_await (c := erase c) (t := t) (r := r) (k := k) hp).symm

lemma erase_run : erase (run c (es.map (Event.observe O))) = run (erase c) es := by
  induction es generalizing c with
  | nil => rfl
  | cons e es ih => rw [List.map_cons, run_cons, run_cons, ih, erase_step]

end Sys

end Async
end CleanArch
