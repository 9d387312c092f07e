import CleanArch.Async.Sys

/-!
# Programs that do not see each other

Take two runs: in one, the programs of `gone` take their turns, in the other they do not
(`without`). The other programs cannot tell the runs apart if a relation between the shared states
of the two runs is kept, and related states give the same answers (`Separates`).
-/

namespace CleanArch
namespace Async

namespace Sys

variable {S : Sys}

/-- The schedule without the turns of the programs in `gone`. -/
def without (gone : Tid → Bool) (es : List S.Event) : List S.Event :=
  es.filter fun
    | .turn t _ => !gone t
    | .world _ => true

structure SameAnswer {E α L Sh : Type} (R : Sh → Sh → Prop) (x y : Except E α × L × Sh) :
    Prop where
  res : x.1 = y.1
  loc : x.2.1 = y.2.1
  sh : R x.2.2 y.2.2

/-- The programs outside `gone` cannot tell related states apart; `own t` has the requests of
program `t`. -/
structure Separates (S : Sys) (gone : Tid → Bool) (own : Tid → S.Cmd → Prop)
    (R : S.Sh → S.Sh → Prop) : Prop where
  hidden : ∀ t c o l s s', gone t = true → own t c → R s s' → R (S.exec t c o l s).2.2 s'
  same : ∀ t c o l s s', gone t = false → own t c → R s s' →
    SameAnswer R (S.exec t c o l s) (S.exec t c o l s')
  env : ∀ e s s', R s s' → R (S.env e s) (S.env e s')

structure Alike (gone : Tid → Bool) (own : Tid → S.Cmd → Prop) (R : S.Sh → S.Sh → Prop)
    (c c' : S.Config) : Prop where
  sh : R c.sh c'.sh
  thr : ∀ t, gone t = false → c.thr t = c'.thr t
  only : ∀ t, (c.thr t).2.Only (own t)

section Steps

variable {own : Tid → S.Cmd → Prop}

lemma Alike.start (hprog : ∀ t, (S.prog t).Only (own t)) {s s' : S.Sh} (h : R s s') :
    Alike gone own R (start s) (start s') :=
  ⟨h, fun _ _ => rfl, hprog⟩

lemma only_step (h : ∀ t, (c.thr t).2.Only (own t)) (e : S.Event) (t : Tid) :
    ((step c e).thr t).2.Only (own t) := by
  cases e with
  | world => exact h t
  | turn u =>
    by_cases hu : t = u
    · subst hu
      rcases (c.thr t).2.ended_or_awaits with hn | ⟨r, k, hp⟩
      · rw [step_ended hn]
        exact h t
      · have hk := h t
        rw [hp] at hk
        rw [step_await hp]
        simpa only [Function.update_self] using hk.2 _ fun _ _ => trivial
    · rw [step_thr hu]
      exact h t

lemma Alike.hidden (hS : Separates S gone own R) (h : Alike gone own R c c') (ht : gone t = true)
    (o : S.Out) : Alike gone own R (step c (.turn t o)) c' := by
  refine ⟨?_, fun u hu => ?_, only_step h.only _⟩
  · rcases (c.thr t).2.ended_or_awaits with hn | ⟨r, k, hp⟩
    · rw [step_ended hn]
      exact h.sh
    · have hown := h.only t
      rw [hp] at hown
      rw [step_await hp]
      exact hS.hidden t r o _ _ _ ht hown.1 h.sh
  · have hne : u ≠ t := fun heq => by
      rw [heq, ht] at hu
      cases hu
    rw [step_thr hne]
    exact h.thr u hu

lemma Alike.turn (hS : Separates S gone own R) (h : Alike gone own R c c') (ht : gone t = false)
    (o : S.Out) : Alike gone own R (step c (.turn t o)) (step c' (.turn t o)) := by
  have hthr := h.thr t ht
  rcases (c.thr t).2.ended_or_awaits with hn | ⟨r, k, hp⟩
  · rw [step_ended hn, step_ended (by rw [← hthr]; exact hn)]
    exact h
  · have hown := h.only t
    rw [hp] at hown
    have hsame := hS.same t r o (c.thr t).1 _ _ ht hown.1 h.sh
    refine ⟨?_, fun u hu => ?_, only_step h.only _⟩
    · rw [step_await hp, step_await (hthr ▸ hp), ← hthr]
      exact hsame.sh
    · by_cases hut : u = t
      · subst hut
        rw [step_await hp, step_await (hthr ▸ hp), ← hthr]
        simp only [Function.update_self, hsame.res, hsame.loc]
      · rw [step_thr hut, step_thr hut]
        exact h.thr u hu

/-- **The runs with and without the programs of `gone`** stay alike. -/
theorem run_without (hS : Separates S gone own R) (h : Alike gone own R c c')
    (es : List S.Event) : Alike gone own R (run c es) (run c' (without gone es)) := by
  induction es generalizing c c' with
  | nil => exact h
  | cons e es ih =>
    cases e with
    | world e => exact ih ⟨hS.env e _ _ h.sh, h.thr, h.only⟩
    | turn t o =>
      cases ht : gone t with
      | true =>
        have hskip : without gone (.turn t o :: es) = without gone es := by simp [without, ht]
        rw [run_cons, hskip]
        exact ih (h.hidden hS ht o)
      | false =>
        have hkeep : without gone (.turn t o :: es) = .turn t o :: without gone es := by
          simp [without, ht]
        rw [run_cons, hkeep, run_cons]
        exact ih (h.turn hS ht o)

end Steps

end Sys

end Async
end CleanArch
