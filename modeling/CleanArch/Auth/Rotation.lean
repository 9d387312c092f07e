import CleanArch.Async.Rely
import CleanArch.Auth.Service

/-!
# What the calls of the auth service keep

`rotationProtocol` holds in every run: every id that is written as the active one was drawn by the
writer and is written once, a login writes the record of a family that nobody wrote before, a
refresh writes that of the family of its token, and a record is there only after its login.
-/

namespace CleanArch

open Async AuthCmd Function Prog Protocol Sys

/-! ## The history -/

structure RotationHistory where
  issued : Uuid4 → Bool := fun _ => false
  born : Uuid4 → Bool := fun _ => false
  exchanged : List (Uuid4 × Tid) := []

def AuthCall.presented : AuthCall → Option Uuid4
  | .refresh token => token.jti
  | _ => none

/-- The family of the token that a refresh presents. -/
def AuthCall.family : AuthCall → Option Uuid4
  | .refresh token => token.familyId
  | _ => none

def AuthCall.isLogin : AuthCall → Bool
  | .login .. => true
  | _ => false

/-- A `SET` issues an id for its family; if it returns, a refresh has exchanged its token. -/
def noteRotation (calls : Tid → AuthCall) (t : Tid) (h : RotationHistory) :
    (c : AuthCmd) → Except AuthError c.Res → RotationHistory
  | .set f state _, r =>
    { issued := update h.issued state.activeJti true
      born := update h.born f true
      exchanged :=
        match r, (calls t).presented with
        | .ok _, some jti => (jti, t) :: h.exchanged
        | _, _ => h.exchanged }
  | _, _ => h

@[reducible] def rotationObserver (calls : Tid → AuthCall) : Observer authMachine AuthEnv where
  H := RotationHistory
  turn t c r _ _ h := noteRotation calls t h c r
  world _ h := h

abbrev AuthView := AuthStore × RotationHistory

/-- A record is there after a `SET` of its family and its id. -/
def Recorded (w : AuthView) : Prop :=
  ∀ f state, w.1.families f = some state → w.2.born f = true ∧ w.2.issued state.activeJti = true

/-- The ids of call `t` are unused. -/
def Fresh (t : Tid) (w : AuthView) : Prop :=
  ∀ id : Uuid4, id.drawnBy = t → w.2.issued id = false ∧ w.2.born id = false

def rotationProtocol (calls : Tid → AuthCall) :
    Protocol (authMachine.observed (rotationObserver calls)) where
  inv := Recorded
  rely t w w' := w.2.exchanged ⊆ w'.2.exchanged ∧
    (∀ f, w.2.born f = true → w'.2.born f = true) ∧ (Fresh t w → Fresh t w')
  good t c _ w _ := ∀ f state ex, c = .set f state ex → state.activeJti.drawnBy = t ∧
    w.2.issued state.activeJti = false ∧
    if (calls t).isLogin then w.2.born f = false
    else w.2.born f = true ∧ (calls t).family = some f
  refl _ _ := ⟨List.Subset.refl _, fun _ h => h, fun h => h⟩
  trans _ _ _ _ h1 h2 :=
    ⟨List.Subset.trans h1.1 h2.1, fun f h => h2.2.1 f (h1.2.1 f h), fun h => h2.2.2 (h1.2.2 h)⟩

/-! ## Requests -/

def AuthCmd.quiet : AuthCmd → Bool
  | .set .. | .delete _ => false
  | _ => true

lemma AuthCmd.exec_quiet {c : AuthCmd} (hc : c.quiet = true) : (c.exec t o l s).2.2 = s := by
  cases c with
  | set | delete => cases hc
  | uuid4 | now => rfl
  | _ =>
    simp only [exec, withFault]
    split <;> rfl

lemma noteRotation_quiet (hc : c.quiet = true) : noteRotation calls t h c r = h := by
  cases c with
  | set => cases hc
  | _ => rfl

lemma AuthCmd.exec_get_ok (h : (exec t o l s (.get f)).1 = .ok a) : a = s.families f := by
  simp only [exec, withFault] at h
  split at h
  · cases h; rfl
  all_goals cases h

section Rules

variable {calls : Tid → AuthCall} {P : Protocol (authMachine.observed (rotationObserver calls))}
  {t : Tid} {α : Type} {Q : Except AuthError α → Nat → AuthView → Prop} {l : Nat} {w : AuthView}

/-- A postcondition that every error meets, under a protocol that quiet requests keep. -/
structure Tolerant (P : Protocol (authMachine.observed (rotationObserver calls))) (t : Tid)
    (Q : Except AuthError α → Nat → AuthView → Prop) : Prop where
  stable : P.Stable t Q
  keeps : ∀ c o l w, quiet c = true → P.inv w → P.Keeps t c o l w
  error : ∀ e l w, Q (.error e) l w

namespace Tolerant

variable (hQ : Tolerant P t Q)

include hQ

lemma raise : P.wp t (.raise e) Q l w := hQ.stable.raise (hQ.error e l w)

lemma quiet_bind (c : AuthCmd) (hc : c.quiet = true) {k : c.Res → AuthProg α}
    (hok : ∀ o a w', P.rely t w w' → P.inv w' → (c.exec t o l w'.1).1 = .ok a →
      P.wp t (k a) Q (c.exec t o l w'.1).2.1 w') : P.wp t ((auth c).bind k) Q l w := by
  refine hQ.stable.call_bind fun w' o hr hi _ => ⟨hQ.keeps c o l w' hc hi, ?_⟩
  have hw : ((c.exec t o l w'.1).2.2, noteRotation calls t w'.2 c (c.exec t o l w'.1).1) = w' := by
    rw [exec_quiet hc, noteRotation_quiet hc]
  split
  · rename_i a ha
    simp only [hw]
    exact hok o a w' hr hi ha
  · exact hQ.error _ _ _

lemma delete_bind {k : Unit → AuthProg α} (hk : ∀ o w, P.inv w → P.Keeps t (.delete f) o l w)
    (hok : ∀ l w, P.wp t (k ()) Q l w) : P.wp t ((auth (.delete f)).bind k) Q l w := by
  refine hQ.stable.call_bind fun w' o hr hi _ => ⟨hk o w' hi, ?_⟩
  split
  · exact hok _ _
  · exact hQ.error _ _ _

lemma decodeRefreshToken_bind {k : Jwt → AuthProg α}
    (hok : ∀ w', P.rely t w w' → P.inv w' → P.wp t (k token) Q l w') :
    P.wp t ((decodeRefreshToken token).bind k) Q l w := by
  rw [decodeRefreshToken, bind_eq, bind_assoc]
  refine hQ.quiet_bind .now rfl fun o now w' hr hi _ => ?_
  split
  · exact hQ.raise
  · split
    · exact hQ.raise
    · split
      · exact hQ.raise
      · exact hok w' hr hi

lemma createAccessToken_bind {k : Jwt → AuthProg α}
    (hok : ∀ token l' w', P.rely t w w' → P.inv w' → P.wp t (k token) Q l' w') :
    P.wp t ((createAccessToken settings userId role).bind k) Q l w := by
  rw [createAccessToken, bind_eq, bind_assoc]
  refine hQ.quiet_bind .now rfl fun o now w' hr hi _ => ?_
  rw [bind_eq, bind_assoc]
  refine hQ.quiet_bind .uuid4 rfl fun o' id w'' hr' hi' _ => ?_
  exact hok _ _ w'' (P.trans _ _ _ _ hr hr') hi'

lemma createRefreshToken_bind {k : Jwt × Uuid4 → AuthProg α}
    (hok : ∀ token jti l' w', jti.drawnBy = t → P.rely t w w' → P.inv w' →
      P.wp t (k (token, jti)) Q l' w') :
    P.wp t ((createRefreshToken settings userId f).bind k) Q l w := by
  rw [createRefreshToken, bind_eq, bind_assoc]
  refine hQ.quiet_bind .now rfl fun o now w' hr hi _ => ?_
  rw [bind_eq, bind_assoc]
  refine hQ.quiet_bind .uuid4 rfl fun o' id w'' hr' hi' hid => ?_
  refine hok _ _ _ w'' ?_ (P.trans _ _ _ _ hr hr') hi'
  cases hid
  rfl

end Tolerant

end Rules

/-! ## Calls -/

def Exchanged (calls : Tid → AuthCall) (t : Tid) {α : Type} (r : Except AuthError α)
    (w : AuthView) : Prop :=
  ∀ a, r = .ok a → ∀ jti, (calls t).presented = some jti → (jti, t) ∈ w.2.exchanged

section Calls

variable {α : Type}

lemma exchanged_stable : (rotationProtocol calls).Stable t
    fun (r : Except AuthError α) (_ : Nat) w => Exchanged calls t r w :=
  fun _ _ _ _ h hr a ha jti hj => hr.rely.1 (h a ha jti hj)

lemma exchanged_error (e : AuthError) (w : AuthView) :
    Exchanged calls t (.error e : Except AuthError α) w :=
  nofun

lemma rotationProtocol_quiet (hc : c.quiet = true) (hi : Recorded w) :
    (rotationProtocol calls).Keeps t c o l w := by
  have hw : ((c.exec t o l w.1).2.2, noteRotation calls t w.2 c (c.exec t o l w.1).1) = w := by
    rw [exec_quiet hc, noteRotation_quiet hc]
  refine ⟨?_, ?_, fun u _ => ?_⟩
  · rintro f state ex rfl
    cases hc
  · show Recorded (_, _)
    rw [hw]
    exact hi
  · show (rotationProtocol calls).rely u w (_, _)
    rw [hw]
    exact (rotationProtocol calls).refl u w

lemma exchanged_tolerant : Tolerant (rotationProtocol calls) t
    fun (r : Except AuthError α) (_ : Nat) w => Exchanged calls t r w :=
  ⟨exchanged_stable, fun _ _ _ _ => rotationProtocol_quiet, fun e _ w => exchanged_error e w⟩

lemma AuthCmd.exec_delete_families (h : (exec t o l s (.delete f)).2.2.families g = some st) :
    s.families g = some st := by
  simp only [exec, withFault] at h
  by_cases hgf : g = f
  · subst hgf
    split at h
    · simp at h
    · exact h
    · simp at h
  · split at h
    · simpa only [update_of_ne hgf] using h
    · exact h
    · simpa only [update_of_ne hgf] using h

lemma rotationProtocol_delete (hi : Recorded w) :
    (rotationProtocol calls).Keeps t (.delete f) o l w :=
  ⟨nofun, fun g state hg => hi g state (exec_delete_families (t := t) hg),
    fun _ _ => ⟨List.Subset.refl _, fun _ h => h, fun h => h⟩⟩

lemma AuthCmd.exec_set_families (h : (exec t o l s (.set f state ex)).2.2.families g = some st) :
    s.families g = some st ∨ g = f ∧ st = state := by
  simp only [exec, withFault] at h
  by_cases hgf : g = f
  · subst hgf
    split at h
    · exact .inr ⟨rfl, by simpa using h.symm⟩
    · exact .inl h
    · exact .inr ⟨rfl, by simpa using h.symm⟩
  · refine .inl ?_
    split at h
    · simpa only [update_of_ne hgf] using h
    · exact h
    · simpa only [update_of_ne hgf] using h

lemma rotationProtocol_set (hi : Recorded w) (hfresh : Fresh t w)
    (hid : state.activeJti.drawnBy = t)
    (hf : if (calls t).isLogin then f.drawnBy = t
      else w.2.born f = true ∧ (calls t).family = some f) :
    (rotationProtocol calls).Keeps t (.set f state ex) o l w := by
  have hborn : if (calls t).isLogin then w.2.born f = false
      else w.2.born f = true ∧ (calls t).family = some f := by
    split
    · rename_i hl
      rw [if_pos hl] at hf
      exact (hfresh f hf).2
    · rename_i hl
      rwa [if_neg hl] at hf
  refine ⟨?_, fun g st hg => ?_,
    fun u hu => ⟨fun p hp => ?_, fun g hg => ?_, fun hfu id hidu => ?_⟩⟩
  · rintro f' state' ex' heq
    cases heq
    exact ⟨hid, (hfresh _ hid).1, hborn⟩
  · -- the new record, or one that was there
    rcases exec_set_families (t := t) hg with hg | ⟨rfl, rfl⟩
    · obtain ⟨h1, h2⟩ := hi g st hg
      refine ⟨?_, ?_⟩
      · show update w.2.born f true g = true
        simp [update_apply, h1]
      · show update w.2.issued state.activeJti true st.activeJti = true
        simp [update_apply, h2]
    · exact ⟨update_self .., update_self ..⟩
  · show p ∈ (match (exec t o l w.1 (.set f state ex)).1, (calls t).presented with
        | .ok _, some jti => (jti, t) :: w.2.exchanged
        | _, _ => w.2.exchanged)
    split
    · exact List.mem_cons_of_mem _ hp
    · exact hp
  · show update w.2.born f true g = true
    simp [update_apply, hg]
  · -- the ids of another call
    obtain ⟨h1, h2⟩ := hfu id hidu
    have hne : id ≠ state.activeJti := by
      rintro rfl
      exact hu (hidu.symm.trans hid)
    have hnf : id ≠ f := by
      rintro rfl
      split at hf
      · exact hu (hidu.symm.trans hf)
      · rw [h2] at hf
        cases hf.1
    exact ⟨by simpa only [noteRotation, update_of_ne hne] using h1,
      by simpa only [noteRotation, update_of_ne hnf] using h2⟩

lemma wp_set {a : α} (hfresh : Fresh t w) (hid : state.activeJti.drawnBy = t)
    (hf : if (calls t).isLogin then f.drawnBy = t
      else w.2.born f = true ∧ (calls t).family = some f) :
    (rotationProtocol calls).wp t ((auth (.set f state ex)).bind fun _ => .ret a)
      (fun r _ w => Exchanged calls t r w) l w := by
  refine exchanged_stable.call_bind fun w' o hr hi _ => ?_
  have hf' : if (calls t).isLogin then f.drawnBy = t
      else w'.2.born f = true ∧ (calls t).family = some f := by
    split
    · rename_i hl
      rwa [if_pos hl] at hf
    · rename_i hl
      rw [if_neg hl] at hf
      exact hf.imp_left (hr.2.1 f)
  refine ⟨rotationProtocol_set hi (hr.2.2 hfresh) hid hf', ?_⟩
  split
  · rename_i u hu
    refine exchanged_stable.ret fun b _ jti hj => ?_
    show (jti, t) ∈ (match (exec t o l w'.1 (.set f state ex)).1, (calls t).presented with
        | .ok _, some jti => (jti, t) :: w'.2.exchanged
        | _, _ => w'.2.exchanged)
    rw [show (exec t o l w'.1 (.set f state ex)).1 = .ok u from hu, hj]
    exact List.mem_cons_self
  · exact exchanged_error _ _

variable (settings : AuthSettings)

lemma wp_login (hl : (calls t).isLogin = true) (hfresh : Fresh t w) :
    (rotationProtocol calls).wp t (login settings username password)
      (fun r _ w => Exchanged calls t r w) l w := by
  refine exchanged_tolerant.quiet_bind (.authenticateUser username password) rfl
    fun o user w1 hr1 hi1 _ => ?_
  cases user with
  | none => exact exchanged_tolerant.raise
  | some =>
    show (rotationProtocol calls).wp t (if _ then _ else _) _ _ _
    split
    · exact exchanged_tolerant.raise
    refine exchanged_tolerant.quiet_bind .uuid4 rfl fun o f w2 hr2 hi2 hf => ?_
    have hft : f.drawnBy = t := by
      cases hf
      rfl
    refine exchanged_tolerant.createAccessToken_bind fun access l3 w3 hr3 hi3 => ?_
    refine exchanged_tolerant.createRefreshToken_bind fun refresh jti l4 w4 hjti hr4 hi4 => ?_
    refine wp_set ?_ hjti (by rw [if_pos hl]; exact hft)
    exact hr4.2.2 (hr3.2.2 (hr2.2.2 (hr1.2.2 hfresh)))

lemma wp_rotate (hl : (calls t).isLogin = false) (hfamily : (calls t).family = some f)
    (hfresh : Fresh t w) (hf : w.2.born f = true) :
    (rotationProtocol calls).wp t (rotate settings userId f state)
      (fun r _ w => Exchanged calls t r w) l w := by
  refine exchanged_tolerant.createRefreshToken_bind fun refresh jti l1 w1 hjti hr1 hi1 => ?_
  refine exchanged_tolerant.createAccessToken_bind fun access l2 w2 hr2 hi2 => ?_
  refine exchanged_tolerant.quiet_bind (.ttl f) rfl fun o ttl w3 hr3 hi3 _ => ?_
  refine wp_set (hr3.2.2 (hr2.2.2 (hr1.2.2 hfresh))) hjti ?_
  rw [if_neg (by simp [hl])]
  exact ⟨hr3.2.1 f (hr2.2.1 f (hr1.2.1 f hf)), hfamily⟩

lemma wp_refreshTokens (hl : (calls t).isLogin = false)
    (hfamily : (calls t).family = token.familyId) (hfresh : Fresh t w) :
    (rotationProtocol calls).wp t (refreshTokens settings token)
      (fun r _ w => Exchanged calls t r w) l w := by
  refine exchanged_tolerant.decodeRefreshToken_bind fun w1 hr1 hi1 => ?_
  cases token.sub with
  | none => exact exchanged_tolerant.raise
  | some userId =>
    cases hf : token.familyId with
    | none => exact exchanged_tolerant.raise
    | some f =>
      cases token.jti with
      | none => exact exchanged_tolerant.raise
      | some =>
        refine exchanged_tolerant.quiet_bind (.get f) rfl fun o record w2 hr2 hi2 hget => ?_
        cases record with
        | none => exact exchanged_tolerant.raise
        | some state =>
          have hborn : w2.2.born f = true := (hi2 f state (exec_get_ok hget).symm).1
          show (rotationProtocol calls).wp t (if _ then _ else _) _ _ _
          split
          · refine exchanged_tolerant.delete_bind (fun o w => rotationProtocol_delete) fun l w => ?_
            exact exchanged_tolerant.raise
          · exact wp_rotate settings hl (hfamily.trans hf) (hr2.2.2 (hr1.2.2 hfresh)) hborn

lemma wp_logout (hp : (calls t).presented = none) :
    (rotationProtocol calls).wp t (logout token) (fun r _ w => Exchanged calls t r w) l w := by
  have hret : ∀ {β : Type} (r : Except AuthError β) (w : AuthView), Exchanged calls t r w :=
    fun _ _ _ _ jti hj => by rw [hp] at hj; cases hj
  refine wp_handle (wp_mono (P := rotationProtocol calls)
    (Q := fun r _ w => Exchanged calls t r w) ?_ fun r l w _ _ => ?_)
  · refine exchanged_tolerant.decodeRefreshToken_bind fun w1 hr1 hi1 => ?_
    cases token.familyId with
    | none => exact exchanged_stable.ret (hret _ _)
    | some =>
      refine wp_call fun w' o _ hi _ => ⟨rotationProtocol_delete hi, fun _ _ _ => hret _ _⟩
  · cases r with
    | ok => exact hret _ _
    | error e =>
      cases e with
      | authenticationException => exact exchanged_stable.ret (hret _ _)
      | _ => exact exchanged_tolerant.raise

lemma wp_authCall (hfresh : Fresh t w) : (rotationProtocol calls).wp t ((calls t).prog settings)
      (fun r _ w => Exchanged calls t r w) l w := by
  have hmap : ∀ {β γ : Type} {p : AuthProg β} {f : β → γ},
      (rotationProtocol calls).wp t p (fun r _ w => Exchanged calls t r w) l w →
      (rotationProtocol calls).wp t (p.bind fun b => .ret (f b))
        (fun r _ w => Exchanged calls t r w) l w := by
    intro β γ p f h
    refine wp_bind (wp_mono h fun r l w _ hr => ?_)
    cases r with
    | ok a => exact exchanged_stable.ret fun _ _ => hr a rfl
    | error e => exact exchanged_error e w
  cases hc : calls t with
  | login username password =>
    exact hmap (wp_login settings (by rw [hc]; rfl) hfresh)
  | refresh token =>
    exact hmap (wp_refreshTokens settings (by rw [hc]; rfl) (by rw [hc]; rfl) hfresh)
  | logout token => exact hmap (wp_logout (by rw [hc]; rfl))

end Calls

/-! ## Runs -/

@[reducible] def observedAuth (settings : AuthSettings) (calls : Tid → AuthCall) : Sys :=
  (authSys settings calls).observed (rotationObserver calls)

lemma AuthEnv.exec_families (e : AuthEnv) (h : (e.exec s).families g = some state) :
    s.families g = some state := by
  obtain ⟨f⟩ := e
  by_cases hgf : g = f
  · subst hgf
    simp [AuthEnv.exec] at h
  · simpa only [AuthEnv.exec, update_of_ne hgf] using h

lemma rotationProtocol_env (calls : Tid → AuthCall) (e : AuthEnv) (hi : Recorded w) :
    Recorded (e.exec w.1, w.2) ∧ ∀ t, (rotationProtocol calls).rely t w (e.exec w.1, w.2) :=
  ⟨fun g state hg => hi g state (e.exec_families hg),
    fun _ => ⟨List.Subset.refl _, fun _ h => h, fun h => h⟩⟩

lemma recorded_start : Recorded ({}, {}) := nofun

lemma fresh_start (t : Tid) : Fresh t ({}, {}) := fun _ _ => ⟨rfl, rfl⟩

section Runs

variable (settings : AuthSettings) (calls : Tid → AuthCall)
  (es : List (authSys settings calls).Event)

def authRun : (authSys settings calls).Config := run (start {}) es

def observedRun : (observedAuth settings calls).Config :=
  run (start ({}, {}))
    (es.map (Event.observe (S := authSys settings calls) (rotationObserver calls)))

lemma erase_observedRun : erase (observedRun settings calls es) = authRun settings calls es :=
  erase_run (S := authSys settings calls) (O := rotationObserver calls)

lemma observedRun_thr : (observedRun settings calls es).thr = (authRun settings calls es).thr := by
  rw [← erase_observedRun]
  rfl

lemma rotationProtocol_holds :
    Holds (S := observedAuth settings calls) (P := rotationProtocol calls)
      (Q := fun t r _ w => Exchanged calls t r w) (observedRun settings calls es) := by
  exact sound_of_forall (fun _ _ _ _ _ => trivial) (fun e w hi => rotationProtocol_env calls e hi)
    (Holds.start recorded_start fun t => wp_authCall settings (fresh_start t)) _

end Runs

end CleanArch
