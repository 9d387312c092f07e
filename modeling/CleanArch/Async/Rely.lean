import CleanArch.Async.Sys

/-!
# Rely and guarantee

A proof about one program that holds under every schedule. While program `t` is at an await, the
others may do whatever `rely t` allows; each of its own steps must be one that the others' `rely`
allows. A `Protocol` is this agreement; `ok` are the steps of the runs under study, and `good` is a
property of single steps that the proof shows.

`Protocol.wp P t p Q l s`: program `p` of `t`, from the local state `l` and the shared state `s`,
keeps the protocol, and `Q` holds of its result and of every state seen from then on.
-/

namespace CleanArch
namespace Async

open Prog Sys

structure Protocol (M : Machine) where
  inv : M.Sh → Prop := fun _ => True
  rely : Tid → M.Sh → M.Sh → Prop
  ok : Tid → M.Cmd → M.Loc → M.Sh → M.Out → Prop := fun _ _ _ _ _ => True
  good : Tid → M.Cmd → M.Loc → M.Sh → M.Out → Prop := fun _ _ _ _ _ => True
  refl : ∀ t s, rely t s s
  trans : ∀ t s1 s2 s3, rely t s1 s2 → rely t s2 s3 → rely t s1 s3

namespace Protocol

variable {M : Machine} (P : Protocol M) (t : Tid) {α β : Type}

/-- What program `t` owes at one step: the request is `good`, the invariant stays, and the
others see a step that they rely on. -/
structure Keeps (c : M.Cmd) (o : M.Out) (l : M.Loc) (s : M.Sh) : Prop where
  good : P.good t c l s o
  inv : P.inv (M.exec t c o l s).2.2
  rely : ∀ u, u ≠ t → P.rely u s (M.exec t c o l s).2.2

/-- What `t` may find at its next step after `s`. -/
structure Later (s s' : M.Sh) : Prop where
  rely : P.rely t s s'
  inv : P.inv s'

variable {P t}

lemma Later.refl {s : M.Sh} (h : P.inv s) : P.Later t s s := ⟨P.refl _ _, h⟩

lemma Later.trans {s s' s'' : M.Sh} (h : P.Later t s s') (h' : P.Later t s' s'') :
    P.Later t s s'' :=
  ⟨P.trans _ _ _ _ h.rely h'.rely, h'.inv⟩

variable (P t)

def wp : M.Prog α → (Except M.Err α → M.Loc → M.Sh → Prop) → M.Loc → M.Sh → Prop
  | .ret a, Q, l, s => ∀ s', P.rely t s s' → P.inv s' → Q (.ok a) l s'
  | .raise e, Q, l, s => ∀ s', P.rely t s s' → P.inv s' → Q (.error e) l s'
  | .await c k, Q, l, s => ∀ s' o, P.rely t s s' → P.inv s' → P.ok t c l s' o →
      P.Keeps t c o l s' ∧
        wp (k (M.exec t c o l s').1) Q (M.exec t c o l s').2.1 (M.exec t c o l s').2.2

variable {P t}

/-! ## Rules -/

variable {Q : Except M.Err α → M.Loc → M.Sh → Prop} {l : M.Loc} {s : M.Sh}

lemma wp_of_forall (h : ∀ s', P.rely t s s' → P.inv s' → P.wp t p Q l s') : P.wp t p Q l s := by
  cases p with
  | ret | raise => exact fun s' hr hi => h s' hr hi s' (P.refl _ _) hi
  | await => exact fun s' o hr hi ho => h s' hr hi s' o (P.refl _ _) hi ho

lemma wp_stable (h : P.wp t p Q l s) (hr : P.rely t s s') : P.wp t p Q l s' := by
  cases p with
  | ret | raise => exact fun s'' hr' => h s'' (P.trans _ _ _ _ hr hr')
  | await => exact fun s'' o hr' => h s'' o (P.trans _ _ _ _ hr hr')

lemma wp_mono {Q Q' : Except M.Err α → M.Loc → M.Sh → Prop} (h : P.wp t p Q l s)
    (hQ : ∀ r l s, P.inv s → Q r l s → Q' r l s) : P.wp t p Q' l s := by
  induction p generalizing l s with
  | ret | raise => exact fun s' hr hi => hQ _ _ _ hi (h s' hr hi)
  | await c k ih =>
    intro s' o hr hi ho
    obtain ⟨hk, hw⟩ := h s' o hr hi ho
    exact ⟨hk, ih _ hw⟩

lemma wp_frame {F : M.Sh → Prop} (hrely : ∀ s s', F s → P.rely t s s' → F s')
    (hown : ∀ c o l s, F s → P.Keeps t c o l s → F (M.exec t c o l s).2.2) (h : P.wp t p Q l s)
    (hF : F s) : P.wp t p (fun r l s => Q r l s ∧ F s) l s := by
  induction p generalizing l s with
  | ret | raise => exact fun s' hr hi => ⟨h s' hr hi, hrely s s' hF hr⟩
  | await c k ih =>
    intro s' o hr hi ho
    obtain ⟨hk, hw⟩ := h s' o hr hi ho
    exact ⟨hk, ih _ hw (hown c o l s' (hrely s s' hF hr) hk)⟩

lemma wp_bind {f : α → M.Prog β} {Q : Except M.Err β → M.Loc → M.Sh → Prop}
    (h : P.wp t p (fun r l s => match r with
      | .ok a => P.wp t (f a) Q l s
      | .error e => Q (.error e) l s) l s) : P.wp t (p.bind f) Q l s := by
  induction p generalizing l s with
  | ret => exact wp_of_forall h
  | raise => exact h
  | await c k ih =>
    intro s' o hr hi ho
    obtain ⟨hk, hw⟩ := h s' o hr hi ho
    exact ⟨hk, ih _ hw⟩

lemma wp_handle {f : M.Err → M.Prog α} (h : P.wp t p (fun r l s => match r with
      | .ok a => Q (.ok a) l s
      | .error e => P.wp t (f e) Q l s) l s) : P.wp t (p.handle f) Q l s := by
  induction p generalizing l s with
  | ret => exact h
  | raise => exact wp_of_forall h
  | await c k ih =>
    intro s' o hr hi ho
    obtain ⟨hk, hw⟩ := h s' o hr hi ho
    exact ⟨hk, ih _ hw⟩

lemma wp_attempt {Q : Except M.Err (Except M.Err α) → M.Loc → M.Sh → Prop}
    (h : P.wp t p (fun r => Q (.ok r)) l s) : P.wp t p.attempt Q l s := by
  induction p generalizing l s with
  | ret | raise => exact h
  | await c k ih =>
    intro s' o hr hi ho
    obtain ⟨hk, hw⟩ := h s' o hr hi ho
    exact ⟨hk, ih _ hw⟩

lemma wp_ofExcept {x : Except M.Err α} (h : ∀ s', P.rely t s s' → P.inv s' → Q x l s') :
    P.wp t (Prog.ofExcept x) Q l s := by
  cases x with
  | ok | error => exact h

lemma wp_ite [Decidable c] {p q : M.Prog α} (hp : c → P.wp t p Q l s) (hq : ¬ c → P.wp t q Q l s) :
    P.wp t (if c then p else q) Q l s := by
  split
  · exact hp ‹_›
  · exact hq ‹_›

lemma wp_call {Q : Except M.Err (M.Res c) → M.Loc → M.Sh → Prop}
    (h : ∀ s' o, P.rely t s s' → P.inv s' → P.ok t c l s' o → P.Keeps t c o l s' ∧
      ∀ s'', P.rely t (M.exec t c o l s').2.2 s'' → P.inv s'' →
        Q (M.exec t c o l s').1 (M.exec t c o l s').2.1 s'') : P.wp t (call c) Q l s := by
  intro s' o hr hi ho
  obtain ⟨hk, hq⟩ := h s' o hr hi ho
  exact ⟨hk, wp_ofExcept hq⟩

/-! ### Rules for a stable post

A post that the others' steps keep is shown once, in the state where the program ends. -/

/-- The others' steps keep `Q`. -/
def Stable (P : Protocol M) (t : Tid) (Q : Except M.Err α → M.Loc → M.Sh → Prop) : Prop :=
  ∀ r l s s', Q r l s → P.Later t s s' → Q r l s'

lemma Stable.ret (hQ : P.Stable t Q) {a : α} (h : Q (.ok a) l s) : P.wp t (.ret a) Q l s :=
  fun s' hr hi => hQ _ _ _ s' h ⟨hr, hi⟩

lemma Stable.raise (hQ : P.Stable t Q) (h : Q (.error e) l s) : P.wp t (.raise e) Q l s :=
  fun s' hr hi => hQ _ _ _ s' h ⟨hr, hi⟩

lemma Stable.ofExcept_bind (hQ : P.Stable t Q) {x : Except M.Err β} {k : β → M.Prog α}
    (hok : ∀ b, x = .ok b → P.wp t (k b) Q l s) (herr : ∀ e, x = .error e → Q (.error e) l s) :
    P.wp t ((Prog.ofExcept x).bind k) Q l s := by
  cases x with
  | ok b => exact hok b rfl
  | error e => exact hQ.raise (herr e rfl)

lemma Stable.raiseIf_bind (hQ : P.Stable t Q) {p : Prop} [Decidable p] {k : Unit → M.Prog α}
    (hok : ¬ p → P.wp t (k ()) Q l s) (herr : p → Q (.error e) l s) :
    P.wp t ((raiseIf p e).bind k) Q l s := by
  unfold raiseIf
  split
  · exact hQ.raise (herr ‹_›)
  · exact hok ‹_›

lemma Stable.call_bind (hQ : P.Stable t Q) {k : M.Res c → M.Prog α}
    (h : ∀ s' o, P.rely t s s' → P.inv s' → P.ok t c l s' o → P.Keeps t c o l s' ∧
      match (M.exec t c o l s').1 with
      | .ok a => P.wp t (k a) Q (M.exec t c o l s').2.1 (M.exec t c o l s').2.2
      | .error e => Q (.error e) (M.exec t c o l s').2.1 (M.exec t c o l s').2.2) :
    P.wp t ((call c).bind k) Q l s := by
  intro s' o hr hi ho
  obtain ⟨hk, hq⟩ := h s' o hr hi ho
  refine ⟨hk, ?_⟩
  revert hq
  cases (M.exec t c o l s').1 with
  | ok => exact fun hq => hq
  | error => exact fun hq => hQ.raise hq

lemma wp_within {I : M.Loc → M.Sh → Prop} (hI : ∀ l s s', I l s → P.Later t s s' → I l s')
    (hstep : ∀ c o l s, okC c → P.inv s → I l s → P.ok t c l s o → P.Keeps t c o l s ∧
      I (M.exec t c o l s).2.1 (M.exec t c o l s).2.2 ∧
      ∀ e, (M.exec t c o l s).1 = .error e → okE e) (hp : p.Within okC okE) (h : I l s) :
    P.wp t p (fun r l s => I l s ∧ ∀ e, r = .error e → okE e) l s := by
  induction p generalizing l s with
  | ret => exact fun s' hr hi => ⟨hI _ _ _ h ⟨hr, hi⟩, nofun⟩
  | raise => exact fun s' hr hi => ⟨hI _ _ _ h ⟨hr, hi⟩, fun e' he => by cases he; exact hp⟩
  | await c k ih =>
    intro s' o hr hi ho
    obtain ⟨hk, hI', he⟩ := hstep c o l s' hp.1 hi (hI _ _ _ h ⟨hr, hi⟩) ho
    exact ⟨hk, ih _ (hp.2 _ he) hI'⟩

/-! ### A stronger invariant

A proof for all runs gives one for the runs under study: what is shown of every step (`good`) is
there to prove a further invariant. -/

/-- The protocol with the further invariant `I`, for the runs whose steps are `ok`. -/
def restrict (P : Protocol M) (I : M.Sh → Prop)
    (ok : Tid → M.Cmd → M.Loc → M.Sh → M.Out → Prop) : Protocol M where
  inv s := P.inv s ∧ I s
  rely := P.rely
  ok t c l s o := P.ok t c l s o ∧ ok t c l s o
  good := P.good
  refl := P.refl
  trans := P.trans

lemma wp_restrict {ok : Tid → M.Cmd → M.Loc → M.Sh → M.Out → Prop}
    (hI : ∀ c o l s, P.inv s → I s → ok t c l s o → P.Keeps t c o l s →
      I (M.exec t c o l s).2.2) (h : P.wp t p Q l s) : (P.restrict I ok).wp t p Q l s := by
  induction p generalizing l s with
  | ret | raise => exact fun s' hr hi => h s' hr hi.1
  | await c k ih =>
    intro s' o hr hi ho
    obtain ⟨hk, hw⟩ := h s' o hr hi.1 ho.1
    exact ⟨⟨hk.good, ⟨hk.inv, hI c o l s' hi.1 hi.2 ho.2 hk⟩, hk.rely⟩, ih _ hw⟩

/-! ## Runs of a system -/

section Sound

variable {S : Sys} {P : Protocol S.toMachine}

/-- What holds of a system in every state of a run: the invariant, and a precondition of the rest
of each program. -/
def Holds (P : Protocol S.toMachine)
    (Q : Tid → Except S.Err S.A → S.Loc → S.Sh → Prop) (c : S.Config) : Prop :=
  P.inv c.sh ∧ ∀ t, P.wp t (c.thr t).2 (Q t) (c.thr t).1 c.sh

variable {Q : Tid → Except S.Err S.A → S.Loc → S.Sh → Prop}

lemma Holds.turn (h : Holds P Q c) {t : Tid}
    (ho : ∀ r, (c.thr t).2.next? = some r → P.ok t r (c.thr t).1 c.sh o) :
    Holds P Q (step c (.turn t o)) := by
  obtain ⟨hi, hw⟩ := h
  rcases (c.thr t).2.ended_or_awaits with hn | ⟨r, k, hp⟩
  · rw [step_ended hn]
    exact ⟨hi, hw⟩
  · have hr : (c.thr t).2.next? = some r := by
      rw [hp]
      rfl
    have ht := hw t
    rw [hp] at ht
    obtain ⟨hk, hw'⟩ := ht c.sh o (P.refl _ _) hi (ho r hr)
    rw [step_await hp]
    refine ⟨hk.inv, fun u => ?_⟩
    -- `t` goes on from its answer; the others have seen a step that they rely on
    by_cases hu : u = t
    · subst hu
      simpa using hw'
    · simp only [Function.update_of_ne hu]
      exact wp_stable (hw u) (hk.rely u hu)

lemma sound (henv : ∀ e s, P.inv s → okEnv e s → P.inv (S.env e s) ∧ ∀ t, P.rely t s (S.env e s))
    (hc : Holds P Q c) (hes : RunOk (Asks P.ok okEnv) c es) : Holds P Q (run c es) := by
  refine (hes.invariant (fun c e hi ho => ?_) hc).last
  cases e with
  | turn => exact hi.turn ho
  | world e =>
    obtain ⟨h1, h2⟩ := henv e c.sh hi.1 ho
    exact ⟨h1, fun t => wp_stable (hi.2 t) (h2 t)⟩

/-- A protocol that allows every request holds in all runs. -/
lemma sound_of_forall (hok : ∀ t c l s o, P.ok t c l s o)
    (henv : ∀ e s, P.inv s → P.inv (S.env e s) ∧ ∀ t, P.rely t s (S.env e s))
    (hc : Holds P Q c) (es : List S.Event) : Holds P Q (run c es) := by
  have hes : RunOk (Asks P.ok fun _ _ => True) c es := by
    refine Steps.Along.of_forall (fun c e => ?_) c es
    cases e with
    | turn => exact fun _ _ => hok _ _ _ _ _
    | world => trivial
  exact sound (fun e s hi _ => henv e s hi) hc hes

/-- A condition on the runs of the system itself, for a protocol that sees the history too. -/
lemma sound_observed {O : Observer S.toMachine S.Env} {P : Protocol (S.observed O).toMachine}
    {ok : Tid → S.Cmd → S.Loc → S.Sh → S.Out → Prop} {okEnv : S.Env → S.Sh → Prop}
    {Q : Tid → Except S.Err S.A → S.Loc → S.Sh × O.H → Prop} {c : (S.observed O).Config}
    (hok : ∀ t r l w o, ok t r l w.1 o → P.ok t r l w o)
    (henv : ∀ e w, P.inv w → okEnv e w.1 → P.inv (S.env e w.1, O.world e w.2) ∧
      ∀ t, P.rely t w (S.env e w.1, O.world e w.2))
    (hc : Holds P Q c) (hes : RunOk (Asks ok okEnv) (erase c) es) :
    Holds P Q (run c (es.map (Event.observe O))) := by
  refine sound (fun e w hi he => henv e w hi he) hc ?_
  clear hc
  induction es generalizing c with
  | nil => trivial
  | cons e es ih =>
    obtain ⟨he, hes⟩ := hes
    rw [← erase_step] at hes
    refine ⟨?_, ih hes⟩
    cases e with
    | turn => exact fun r hr => hok _ _ _ _ _ (he r hr)
    | world => exact he

lemma Holds.start {s : S.Sh} (hi : P.inv s) (h : ∀ t, P.wp t (S.prog t) (Q t) (S.loc t) s) :
    Holds P Q (start s) :=
  ⟨hi, h⟩

lemma Holds.returned (h : Holds P Q c) {t : Tid} (ha : Returned c t a) :
    Q t (.ok a) (c.thr t).1 c.sh := by
  have hw := h.2 t
  rw [show (c.thr t).2 = .ret a from ha] at hw
  exact hw c.sh (P.refl _ _) h.1

lemma Holds.result (h : Holds P Q c) {t : Tid} (hr : (c.thr t).2.result? = some r) :
    Q t r (c.thr t).1 c.sh := by
  have hw := h.2 t
  cases hp : (c.thr t).2 with
  | ret | raise =>
    rw [hp] at hw hr
    cases hr
    exact hw c.sh (P.refl _ _) h.1
  | await =>
    rw [hp] at hr
    cases hr

lemma Holds.ended (h : Holds P Q c) {t : Tid} (ht : (c.thr t).2.next? = none) :
    ∃ r, Q t r (c.thr t).1 c.sh := by
  obtain ⟨r, hr⟩ := result_of_ended ht
  exact ⟨r, h.result hr⟩

lemma Holds.good (h : Holds P Q c) {t : Tid} {o : S.Out} (hr : (c.thr t).2.next? = some r)
    (ho : P.ok t r (c.thr t).1 c.sh o) : P.good t r (c.thr t).1 c.sh o := by
  obtain ⟨hi, hw⟩ := h
  obtain ⟨k, hp⟩ := awaits_of_next hr
  have ht := hw t
  rw [hp] at ht
  obtain ⟨hk, -⟩ := ht c.sh o (P.refl _ _) hi ho
  exact hk.good

end Sound

/-! ## A run alone -/

/-- The protocol of program `t` when it runs alone. -/
def alone (M : Machine) (t : Tid) : Protocol M where
  rely u s s' := u = t → s' = s
  refl _ _ _ := rfl
  trans _ _ _ _ h1 h2 hu := (h2 hu).trans (h1 hu)

lemma alone_keeps (l : M.Loc) (s : M.Sh) : (alone M t).Keeps t c o l s :=
  ⟨trivial, trivial, fun _ hu h => absurd h hu⟩

lemma run_of_wp (h : (alone M t).wp t p Q l s) (o : Nat → M.Out) :
    Q (M.run t p o l s).1 (M.run t p o l s).2.1 (M.run t p o l s).2.2 := by
  induction p generalizing l s o with
  | ret | raise => exact h s (fun _ => rfl) trivial
  | await c k ih => exact ih _ (h s (o 0) (fun _ => rfl) trivial trivial).2 fun n => o (n + 1)

end Protocol

end Async
end CleanArch
