import CleanArch.Async.Sys
import Mathlib.Algebra.BigOperators.Group.Finset.Piecewise
import Mathlib.Tactic.Abel

/-!
# Who has changed a total

A conservation law says how a total of the shared state is made up of what the programs have done.
The observer `Sys.bookings total` keeps, for every program, the sum of the changes that its own
requests have made to the total. As long as the world itself keeps the total, the total without the
bookings (`unbooked`) never changes.
-/

namespace CleanArch
namespace Async
namespace Sys

open Finset

variable {S : Sys} {G : Type} [AddCommGroup G]

@[reducible] def bookings (S : Sys) (total : S.Sh → G) : Observer S.toMachine S.Env where
  H := Tid → G
  turn t _ _ s s' h := Function.update h t (h t + (total s' - total s))
  world _ h := h

def turns : List S.Event → Finset Tid
  | [] => ∅
  | .turn t _ :: es => Insert.insert t (turns es)
  | .world _ :: es => turns es

variable {T : Finset Tid}

lemma turns_cons_subset (h : turns (e :: es) ⊆ T) : turns [e] ⊆ T ∧ turns es ⊆ T := by
  cases e with
  | turn =>
    obtain ⟨ht, hes⟩ := insert_subset_iff.mp h
    exact ⟨by simpa [turns] using ht, hes⟩
  | world => exact ⟨empty_subset T, h⟩

lemma sum_book (ht : t ∈ T) (h : Tid → G) :
    ∑ u ∈ T, Function.update h t (h t + x) u = (∑ u ∈ T, h u) + x := by
  rw [sum_update_of_mem ht, ← add_sum_erase T h ht, sdiff_singleton_eq_erase]
  abel

variable {total : S.Sh → G}

/-- The total without what the programs of `T` have booked. -/
def unbooked (T : Finset Tid) (c : (S.observed (S.bookings total)).Config) : G :=
  total c.sh.1 - ∑ t ∈ T, c.sh.2 t

lemma unbooked_step (henv : ∀ e s, total (S.env e s) = total s) (he : turns [e] ⊆ T) :
    unbooked T (step c (e.observe (S.bookings total))) = unbooked T c := by
  cases e with
  | world e => exact congrArg (· - ∑ t ∈ T, c.sh.2 t) (henv e c.sh.1)
  | turn t =>
    rcases (c.thr t).2.ended_or_awaits with hn | ⟨r, k, hp⟩
    · rw [Event.observe, step_ended hn]
    · have ht : t ∈ T := he (by simp [turns])
      rw [Event.observe, step_await hp]
      simp only [unbooked, sum_book ht]
      abel

lemma unbooked_run (henv : ∀ e s, total (S.env e s) = total s) (hes : turns es ⊆ T)
    (c : (S.observed (S.bookings total)).Config) :
    unbooked T (run c (es.map (Event.observe (S.bookings total)))) = unbooked T c := by
  induction es generalizing c with
  | nil => rfl
  | cons e es ih =>
    obtain ⟨he, hes⟩ := turns_cons_subset hes
    rw [List.map_cons, run_cons, ih hes, unbooked_step henv he]

/-- **The total is made up of what the programs have booked**, from a start without bookings. -/
theorem total_run (total : S.Sh → G) (henv : ∀ e s, total (S.env e s) = total s)
    (hes : turns es ⊆ T) (s : S.Sh) :
    total (run (start (S := S.observed (S.bookings total)) (s, fun _ => 0))
        (es.map (Event.observe (S.bookings total)))).sh.1 =
      total s + ∑ t ∈ T, (run (start (S := S.observed (S.bookings total)) (s, fun _ => 0))
        (es.map (Event.observe (S.bookings total)))).sh.2 t := by
  have h := unbooked_run henv hes (start (S := S.observed (S.bookings total)) (s, fun _ => 0))
  have hnone : ∑ t ∈ T, (fun _ => 0 : Tid → G) t = 0 := sum_const_zero
  rw [unbooked, unbooked, sub_eq_iff_eq_add] at h
  rw [h, start, hnone, sub_zero]

end Sys

end Async
end CleanArch
