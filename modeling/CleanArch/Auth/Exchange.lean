import CleanArch.Auth.Rotation

/-!
# A refresh token is exchanged at most once

A token that was exchanged is never the active one again if the record still has the presented id
whenever a refresh writes it (`Compared`). Two refreshes that both read the record before either
writes it both return a pair (`refresh_exchanged_twice`).
-/

namespace CleanArch

open Async AuthCmd Protocol Sys

def AuthCall.compared (s : AuthStore) : AuthCall → AuthCmd → Bool
  | .refresh token, .set f _ _ => (s.families f).map (·.activeJti) = token.jti
  | _, _ => true

/-- The invariant: no two families have one active id, an exchanged id is not active, and one call
has exchanged it. -/
structure ExchangedOnce (w : AuthView) : Prop where
  unique : ∀ f g a b, w.1.families f = some a → w.1.families g = some b →
    a.activeJti = b.activeJti → f = g
  burned : ∀ jti t, (jti, t) ∈ w.2.exchanged →
    w.2.issued jti = true ∧ ∀ f a, w.1.families f = some a → a.activeJti ≠ jti
  once : ∀ jti t u, (jti, t) ∈ w.2.exchanged → (jti, u) ∈ w.2.exchanged → t = u

section Step

variable {calls : Tid → AuthCall} {t : Tid} {l : Nat} {w : AuthView}

lemma ExchangedOnce.of_subset (h : ExchangedOnce w)
    (hs : ∀ f a, s.families f = some a → w.1.families f = some a) : ExchangedOnce (s, w.2) where
  unique f g a b hf hg := h.unique f g a b (hs f a hf) (hs g b hg)
  burned jti t hj := ⟨(h.burned jti t hj).1, fun f a hf => (h.burned jti t hj).2 f a (hs f a hf)⟩
  once := h.once

lemma AuthCmd.exec_set_ok (h : (exec t o l s (.set f state ex)).1 = .ok u) :
    (exec t o l s (.set f state ex)).2.2.families f = some state := by
  simp only [exec, withFault] at h ⊢
  split at h
  · simp
  all_goals cases h

lemma mem_exchanged_set (h : (jti, u) ∈ (noteRotation calls t w.2 (.set f state ex) r).exchanged) :
    (jti, u) ∈ w.2.exchanged ∨ u = t ∧ r = .ok () ∧ (calls t).presented = some jti := by
  simp only [noteRotation] at h
  split at h
  · rename_i v j hj
    rcases List.mem_cons.mp h with heq | h
    · cases heq
      exact .inr ⟨rfl, rfl, hj⟩
    · exact .inl h
  · exact .inl h

lemma AuthCall.compared_some {call : AuthCall} (h : call.compared s (.set f state ex) = true)
    (hp : call.presented = some jti) : ∃ a, s.families f = some a ∧ a.activeJti = jti := by
  cases call with
  | login | logout => cases hp
  | refresh token =>
    simp only [AuthCall.compared, decide_eq_true_eq] at h
    rw [show token.jti = some jti from hp] at h
    simpa using h

lemma ExchangedOnce.set (h : ExchangedOnce w) (hr : Recorded w)
    (hc : (calls t).compared w.1 (.set f state ex) = true)
    (hnew : w.2.issued state.activeJti = false) :
    ExchangedOnce ((exec t o l w.1 (.set f state ex)).2.2,
      noteRotation calls t w.2 (.set f state ex) (exec t o l w.1 (.set f state ex)).1) := by
  -- the new id is not the one of an old record
  have hold : ∀ g a, w.1.families g = some a → a.activeJti ≠ state.activeJti := by
    intro g a hg heq
    rw [← heq, (hr g a hg).2] at hnew
    cases hnew
  have hissued : ∀ jti, w.2.issued jti = true →
      Function.update w.2.issued state.activeJti true jti = true := by
    intro jti hj
    simp [Function.update_apply, hj]
  refine ⟨fun g g' a b hg hg' hab => ?_, fun jti u hj => ?_, fun jti u v hu hv => ?_⟩
  · rcases exec_set_families hg with ha | ⟨rfl, rfl⟩ <;>
      rcases exec_set_families hg' with hb | ⟨rfl, rfl⟩
    · exact h.unique g g' a b ha hb hab
    · exact absurd hab (hold g a ha)
    · exact absurd hab.symm (hold g' b hb)
    · rfl
  · rcases mem_exchanged_set hj with hj | ⟨rfl, hok, hp⟩
    · obtain ⟨h1, h2⟩ := h.burned jti u hj
      refine ⟨hissued jti h1, fun g a hg => ?_⟩
      rcases exec_set_families hg with hg | ⟨rfl, rfl⟩
      · exact h2 g a hg
      · rintro rfl
        rw [h1] at hnew
        cases hnew
    · -- the exchanged id was the active one of this family, and of no other
      obtain ⟨old, hf, rfl⟩ := AuthCall.compared_some hc hp
      refine ⟨hissued _ (hr f old hf).2, fun g a hg heq => ?_⟩
      rcases exec_set_families hg with hg' | ⟨rfl, rfl⟩
      · cases h.unique g f a old hg' hf heq
        rw [exec_set_ok hok] at hg
        cases hg
        exact hold f old hf heq.symm
      · exact hold _ old hf heq.symm
  · rcases mem_exchanged_set hu with hu' | ⟨rfl, -, hp⟩ <;>
      rcases mem_exchanged_set hv with hv' | ⟨rfl, -, hp'⟩
    · exact h.once jti u v hu' hv'
    · obtain ⟨old, hf, rfl⟩ := AuthCall.compared_some hc hp'
      exact absurd rfl ((h.burned _ u hu').2 f old hf)
    · obtain ⟨old, hf, rfl⟩ := AuthCall.compared_some hc hp
      exact absurd rfl ((h.burned _ v hv').2 f old hf)
    · rfl

lemma ExchangedOnce.step (h : ExchangedOnce w) (hr : Recorded w) {c : AuthCmd} {o : AuthAnswer}
    (hc : (calls t).compared w.1 c = true) (hk : (rotationProtocol calls).Keeps t c o l w) :
    ExchangedOnce ((c.exec t o l w.1).2.2, noteRotation calls t w.2 c (c.exec t o l w.1).1) := by
  cases hq : c.quiet with
  | true =>
    rw [exec_quiet hq, noteRotation_quiet hq]
    exact h
  | false =>
    cases c with
    | set f state ex => exact h.set hr hc (hk.good f state ex rfl).2.1
    | delete => exact h.of_subset fun g a hg => exec_delete_families hg
    | _ => cases hq

end Step

/-! ## Runs -/

abbrev Compared (settings : AuthSettings) (calls : Tid → AuthCall) :
    (authSys settings calls).Config → (authSys settings calls).Event → Prop :=
  Asks (fun t c _ s _ => (calls t).compared s c = true) fun _ _ => True

def exchangeProtocol (calls : Tid → AuthCall) :
    Protocol (authMachine.observed (rotationObserver calls)) :=
  (rotationProtocol calls).restrict ExchangedOnce
    fun t c _ w _ => (calls t).compared w.1 c = true

lemma exchangeProtocol_holds (hes : RunOk (Compared settings calls) (start {}) es) :
    Holds (S := observedAuth settings calls) (P := exchangeProtocol calls)
      (Q := fun t r _ w => Exchanged calls t r w) (observedRun settings calls es) := by
  refine sound_observed (S := authSys settings calls) (O := rotationObserver calls)
    (c := start ({}, {})) (fun t c l w o h => ?_) (fun e w hi _ => ?_)
    (Holds.start ?_ fun t => ?_) hes
  · exact ⟨trivial, h⟩
  · obtain ⟨h1, h2⟩ := rotationProtocol_env calls e hi.1
    exact ⟨⟨h1, hi.2.of_subset fun f a => e.exec_families⟩, h2⟩
  · exact ⟨recorded_start, nofun, nofun, nofun⟩
  · exact wp_restrict (fun c o l w hr hi hc hk => hi.step hr hc hk)
      (wp_authCall settings (fresh_start t))

/-- **A refresh token is exchanged at most once.** Calls run under any schedule, with any faults
and expired records. If every record that a refresh writes still has the id that it presents, two
refreshes that present one id do not both return a pair. -/
theorem refresh_exchanged_once (settings : AuthSettings) (calls : Tid → AuthCall)
    (es : List (authSys settings calls).Event)
    (hes : RunOk (Compared settings calls) (start {}) es) (t u : Tid) (jti : Uuid4)
    (ht : (calls t).presented = some jti) (hu : (calls u).presented = some jti)
    (pair pair' : Option TokenResponse) (hrt : Returned (authRun settings calls es) t pair)
    (hru : Returned (authRun settings calls es) u pair') : t = u := by
  have hh := exchangeProtocol_holds hes
  rw [Returned, ← observedRun_thr] at hrt hru
  exact hh.1.2.once jti t u (hh.returned hrt pair rfl jti ht) (hh.returned hru pair' rfl jti hu)

/-! ### One token, two refreshes -/

/-- The refresh token of user 7 in the family of call 0, with the id `jti`. -/
def sampleToken (jti : Uuid4) : Jwt :=
  { sub := some 7, tokenType := .refresh, jti := some jti, iat := 0, exp := 604800,
    familyId := some ⟨0, 0⟩ }

/-- The pair with the access token `accessJti` and the refresh token `refreshJti`. -/
def samplePair (accessJti refreshJti : Uuid4) : TokenResponse :=
  { accessToken := { sub := some 7, tokenType := .access, jti := some accessJti, iat := 0,
                     exp := 900, role := some "user", permissions := some 3 }
    refreshToken := sampleToken refreshJti, expiresIn := 900 }

def refreshCalls : Tid → AuthCall
  | 0 => .login "ann" "secret"
  | _ => .refresh (sampleToken ⟨0, 2⟩)

def authOrder (calls : Tid → AuthCall) (ts : List Tid) : List (authSys {} calls).Event :=
  ts.map fun t => .turn t { user := some ⟨7, "user", true⟩ }

/-- A login has 7 requests and a rotation has 8. Call 1 rotates the token; call 2 comes later, and
revokes the family. -/
def refreshTwice : List Tid :=
  List.replicate 7 0 ++ List.replicate 8 1 ++ List.replicate 3 2

/-- Only call 1 returns a pair. -/
theorem refresh_exchanged_once_later : (1 : Tid) = 1 ∧ ∀ pair,
      ¬ Returned (authRun {} refreshCalls (authOrder refreshCalls refreshTwice)) 2 pair := by
  have hes : RunOk (Compared {} refreshCalls) (start {})
      (authOrder refreshCalls refreshTwice) := by decide +kernel
  have hret : Returned (authRun {} refreshCalls (authOrder refreshCalls refreshTwice)) 1
      (some (samplePair ⟨1, 1⟩ ⟨1, 0⟩)) := returned_of_result (by decide +kernel)
  refine ⟨refresh_exchanged_once {} refreshCalls _ hes 1 1 ⟨0, 2⟩ rfl rfl _ _ hret hret,
    fun pair h => ?_⟩
  exact absurd (refresh_exchanged_once {} refreshCalls _ hes 1 2 ⟨0, 2⟩ rfl rfl _ _ hret h)
    (by decide)

def refreshRace : List Tid :=
  List.replicate 7 0 ++ [1, 1, 2, 2] ++ List.replicate 6 1 ++ List.replicate 6 2

/-- Both return a pair for the token that the login issued. -/
theorem refresh_exchanged_twice :
    Returned (authRun {} refreshCalls (authOrder refreshCalls refreshRace)) 0
        (some (samplePair ⟨0, 1⟩ ⟨0, 2⟩)) ∧
      refreshCalls 1 = .refresh (samplePair ⟨0, 1⟩ ⟨0, 2⟩).refreshToken ∧
      refreshCalls 2 = .refresh (samplePair ⟨0, 1⟩ ⟨0, 2⟩).refreshToken ∧
      Returned (authRun {} refreshCalls (authOrder refreshCalls refreshRace)) 1
        (some (samplePair ⟨1, 1⟩ ⟨1, 0⟩)) ∧
      Returned (authRun {} refreshCalls (authOrder refreshCalls refreshRace)) 2
        (some (samplePair ⟨2, 1⟩ ⟨2, 0⟩)) :=
  ⟨returned_of_result (by decide +kernel), rfl, rfl, returned_of_result (by decide +kernel),
    returned_of_result (by decide +kernel)⟩

/-!
## Revocation is final

A logout, or a refresh with a token that is not the active one, deletes the record of its family. A
rotation that had read the record before the deletion writes it back.
-/

/-- The request of a rotation that writes the record of the family `f`. -/
def AuthCall.revives (f : Uuid4) (call : AuthCall) : AuthCmd → Bool
  | .set g _ _ => !call.isLogin && g = f
  | _ => false

/-- The record of `f` was there and is not. -/
def Revoked (f : Uuid4) (w : AuthView) : Prop := w.1.families f = none ∧ w.2.born f = true

/-- From the revocation of `f` on; the calls in `before` have started before it. -/
def revokedProtocol (calls : Tid → AuthCall) (f : Uuid4) (before : List Tid) :
    Protocol (authMachine.observed (rotationObserver calls)) :=
  (rotationProtocol calls).restrict (Revoked f)
    fun t c _ _ _ => t ∈ before → (calls t).revives f c = false

section Step

variable {calls : Tid → AuthCall} {t : Tid} {l : Nat} {w : AuthView} {f : Uuid4}
  {before : List Tid}

lemma noteRotation_born (hb : h.born f = true) : (noteRotation calls t h c r).born f = true := by
  cases c with
  | set g =>
    show Function.update h.born g true f = true
    simp [Function.update_apply, hb]
  | _ => exact hb

lemma Revoked.of_subset (h : Revoked f w)
    (hs : ∀ a, s.families f = some a → w.1.families f = some a) (hb : h'.born f = true) :
    Revoked f (s, h') := by
  refine ⟨?_, hb⟩
  cases hf : s.families f with
  | none => rfl
  | some a =>
    have ha := hs a hf
    rw [h.1] at ha
    cases ha

lemma Revoked.step (h : Revoked f w) {c : AuthCmd} {o : AuthAnswer}
    (hc : (calls t).revives f c = false) (hk : (rotationProtocol calls).Keeps t c o l w) :
    Revoked f ((c.exec t o l w.1).2.2, noteRotation calls t w.2 c (c.exec t o l w.1).1) := by
  refine h.of_subset (fun a ha => ?_) (noteRotation_born h.2)
  cases hq : c.quiet with
  | true => rwa [AuthCmd.exec_quiet hq] at ha
  | false =>
    cases c with
    | delete => exact AuthCmd.exec_delete_families ha
    | set g state ex =>
      rcases AuthCmd.exec_set_families ha with ha | ⟨rfl, -⟩
      · exact ha
      · -- a login writes a new family only
        have hborn := (hk.good f state ex rfl).2.2
        cases hl : (calls t).isLogin with
        | true =>
          rw [if_pos hl, h.2] at hborn
          cases hborn
        | false => simp [AuthCall.revives, hl] at hc
    | _ => cases hq

/-- A refresh that writes the record of `f` presents a token of the family. -/
lemma revives_eq_false (hf : t ∈ before ∨ (calls t).family ≠ some f)
    (hc : t ∈ before → (calls t).revives f c = false)
    (hk : (rotationProtocol calls).Keeps t c o l w) : (calls t).revives f c = false := by
  rcases hf with ht | hf
  · exact hc ht
  · cases c with
    | set g state ex =>
      have hgood := (hk.good g state ex rfl).2.2
      cases hl : (calls t).isLogin with
      | true => simp [AuthCall.revives, hl]
      | false =>
        rw [if_neg (by simp [hl])] at hgood
        have hne : g ≠ f := by
          rintro rfl
          exact hf hgood.2
        simp [AuthCall.revives, hne]
    | _ => rfl

lemma revokedProtocol_quiet (c : AuthCmd) (o : AuthAnswer) (l : Nat) (w : AuthView)
    (hc : c.quiet = true) (hi : (revokedProtocol calls f before).inv w) :
    (revokedProtocol calls f before).Keeps t c o l w := by
  have hk : (rotationProtocol calls).Keeps t c o l w := rotationProtocol_quiet hc hi.1
  refine ⟨hk.good, ⟨hk.inv, hi.2.step ?_ hk⟩, hk.rely⟩
  cases c with
  | set => cases hc
  | _ => rfl

/-- A refresh that starts after the revocation finds no record. -/
lemma wp_revoked_refresh (hf : token.familyId = some f) :
    (revokedProtocol calls f before).wp t ((AuthCall.refresh token).prog settings)
      (fun r _ _ => ∀ pair, r ≠ .ok pair) l w := by
  have hQ : ∀ {α : Type}, Tolerant (revokedProtocol calls f before) t
      fun (r : Except AuthError α) _ _ => ∀ a, r ≠ .ok a :=
    ⟨fun _ _ _ _ h _ => h, revokedProtocol_quiet, nofun⟩
  refine wp_bind (wp_mono (Q := fun r _ _ => ∀ a, r ≠ .ok a) ?_ fun r l w _ hr => ?_)
  · refine hQ.decodeRefreshToken_bind fun w1 _ _ => ?_
    rw [hf]
    cases token.sub with
    | none => exact hQ.raise
    | some =>
      cases token.jti with
      | none => exact hQ.raise
      | some =>
        refine hQ.quiet_bind (.get f) rfl fun o record w2 _ hi hget => ?_
        rw [AuthCmd.exec_get_ok hget, hi.2.1]
        exact hQ.raise
  · cases r with
    | ok a => exact absurd rfl (hr a)
    | error e => exact hQ.error e l w

end Step

/-! ## Runs -/

section Runs

variable (settings : AuthSettings) (calls : Tid → AuthCall)

/-- No call that has started in the schedule `before` writes the record of `f` back. -/
abbrev NoRevival (f : Uuid4) (before : List (authSys settings calls).Event) :
    (authSys settings calls).Config → (authSys settings calls).Event → Prop :=
  Asks (fun t c _ _ _ => t ∈ started before → (calls t).revives f c = false) fun _ _ => True

variable {settings calls}

lemma rotationProtocol_deleted (hu : ((authRun settings calls es).thr u).2.next? = some (.delete f))
    (hrec : (authRun settings calls es).sh.families f ≠ none)
    (hdel : (step (authRun settings calls es) (.turn u o)).sh.families f = none) :
    Holds (S := observedAuth settings calls) (P := rotationProtocol calls)
        (Q := fun t r _ w => Exchanged calls t r w)
        (step (observedRun settings calls es) (.turn u o)) ∧
      Revoked f (step (observedRun settings calls es) (.turn u o)).sh := by
  have hh := rotationProtocol_holds settings calls es
  rw [← erase_observedRun] at hrec hdel
  rw [← erase_step] at hdel
  rw [← observedRun_thr] at hu
  obtain ⟨state, hstate⟩ := Option.ne_none_iff_exists'.mp hrec
  have hborn := (hh.1 f state hstate).1
  refine ⟨hh.turn fun _ _ => trivial, hdel, ?_⟩
  obtain ⟨k, hp⟩ := Prog.awaits_of_next hu
  rw [step_await hp]
  exact noteRotation_born hborn

lemma revokedProtocol_run {before : List (authSys settings calls).Event}
    (hc : Holds (S := observedAuth settings calls) (P := revokedProtocol calls f (started before)) Q
      c)
    (hes : RunOk (NoRevival settings calls f before) (erase c) es) :
    Holds (S := observedAuth settings calls) (P := revokedProtocol calls f (started before)) Q
      (run c (es.map (Event.observe (S := authSys settings calls) (rotationObserver calls)))) := by
  refine sound_observed (fun t c l w o h => ?_) (fun e w hi _ => ?_) hc hes
  · exact ⟨trivial, h⟩
  · obtain ⟨h1, h2⟩ := rotationProtocol_env calls e hi.1
    exact ⟨⟨h1, hi.2.of_subset (fun a => e.exec_families) hi.2.2⟩, h2⟩

/-- **Revocation is final.** Calls run under any schedule, with any faults and expired records.
Call `u` deletes the record of the family `f`, and no call that has started before writes it back.
Then a refresh with a token of the family that has not started before does not return. -/
theorem revocation_final (settings : AuthSettings) (calls : Tid → AuthCall)
    (es es' : List (authSys settings calls).Event) (u : Tid) (o : AuthAnswer) (f : Uuid4)
    (hu : ((authRun settings calls es).thr u).2.next? = some (.delete f))
    (hrec : (authRun settings calls es).sh.families f ≠ none)
    (hdel : (step (authRun settings calls es) (.turn u o)).sh.families f = none)
    (hes : RunOk (NoRevival settings calls f es) (step (authRun settings calls es) (.turn u o)) es')
    (t : Tid) (token : Jwt) (ht : calls t = .refresh token) (hf : token.familyId = some f)
    (hstart : t ∉ started es) (pair : Option TokenResponse) :
    ¬ Returned (run (step (authRun settings calls es) (.turn u o)) es') t pair := by
  obtain ⟨hh, hrev⟩ := rotationProtocol_deleted hu hrec hdel
  -- a refresh that is at its start is not call `u`
  have hthr : ∀ v token, v ∉ started es → calls v = .refresh token →
      (step (observedRun settings calls es) (.turn u o)).thr v =
        (0, (AuthCall.refresh token).prog settings) := by
    intro v token hv hcall
    have hthr : (authRun settings calls es).thr v = (0, (calls v).prog settings) := run_thr hv _
    have hne : v ≠ u := by
      rintro rfl
      rw [hthr, hcall] at hu
      cases hu
    rw [step_thr hne, observedRun_thr, hthr, hcall]
  -- from the deletion on, the family stays revoked
  have hold : Holds (S := observedAuth settings calls) (P := revokedProtocol calls f (started es))
      (Q := fun v r _ _ => v ∉ started es → (calls v).family = some f → ∀ pair, r ≠ .ok pair)
      (step (observedRun settings calls es) (.turn u o)) := by
    refine ⟨⟨hh.1, hrev⟩, fun v => ?_⟩
    by_cases hv : v ∈ started es ∨ (calls v).family ≠ some f
    · refine wp_mono (wp_restrict (fun c o l w _ hi hc hk => ?_) (hh.2 v))
        fun _ _ _ _ _ hn hfv => absurd hv (by simp [hn, hfv])
      exact hi.step (revives_eq_false hv hc hk) hk
    · obtain ⟨hn, hfv⟩ := not_or.mp hv
      cases hcall : calls v with
      | refresh token =>
        rw [hcall] at hfv
        rw [hthr v token hn hcall]
        exact wp_mono (wp_revoked_refresh (not_not.mp hfv)) fun _ _ _ _ h _ _ => h
      | login | logout =>
        rw [hcall] at hfv
        exact absurd nofun hfv
  have herase : erase (step (observedRun settings calls es) (.turn u o)) =
      step (authRun settings calls es) (.turn u o) := by
    rw [← erase_observedRun]
    exact erase_step (observedRun settings calls es) (.turn u o)
  rw [← herase] at hes ⊢
  intro hret
  rw [← erase_run] at hret
  exact (revokedProtocol_run hold hes).returned hret hstart (by rw [ht]; exact hf) pair rfl

end Runs

/-! ### A logout during a refresh -/

/-- Call 1 presents the token of the login and call 2 logs out with it; call 3 presents the token
that call 1 returns. -/
def logoutCalls : Tid → AuthCall
  | 0 => .login "ann" "secret"
  | 1 => .refresh (sampleToken ⟨0, 2⟩)
  | 2 => .logout (sampleToken ⟨0, 2⟩)
  | _ => .refresh (sampleToken ⟨1, 0⟩)

def loggedOut (ts : List Tid) : (authSys {} logoutCalls).Config :=
  step (authRun {} logoutCalls (authOrder logoutCalls ts)) (.turn 2 {})

/-- The login, and the logout up to its `DELETE`. -/
def loginLogout : List Tid := List.replicate 7 0 ++ [2]

/-- A refresh that starts after the logout does not return. -/
theorem revocation_final_logout : logoutCalls 1 = .refresh (sampleToken ⟨0, 2⟩) ∧ ∀ pair,
      ¬ Returned (run (loggedOut loginLogout) (authOrder logoutCalls [1, 1])) 1 pair :=
  ⟨rfl, revocation_final {} logoutCalls (authOrder logoutCalls loginLogout)
    (authOrder logoutCalls [1, 1]) 2 {} ⟨0, 0⟩ (by decide +kernel) (by decide +kernel)
    (by decide +kernel) (by decide +kernel) 1 (sampleToken ⟨0, 2⟩) rfl rfl (by decide)⟩

def logoutDuringRefresh : List Tid := List.replicate 7 0 ++ [1, 1, 2]

/-- Then call 1 writes the record back and returns a pair. Call 3 starts after the logout with the
token of this pair, and returns one too. -/
theorem revocation_undone :
    ((authRun {} logoutCalls (authOrder logoutCalls logoutDuringRefresh)).thr 2).2.next? =
        some (.delete ⟨0, 0⟩) ∧
      (authRun {} logoutCalls (authOrder logoutCalls logoutDuringRefresh)).sh.families ⟨0, 0⟩ ≠
        none ∧
      (loggedOut logoutDuringRefresh).sh.families ⟨0, 0⟩ = none ∧
      3 ∉ started (authOrder logoutCalls logoutDuringRefresh) ∧
      logoutCalls 3 = .refresh (samplePair ⟨1, 1⟩ ⟨1, 0⟩).refreshToken ∧
      (samplePair ⟨1, 1⟩ ⟨1, 0⟩).refreshToken.familyId = some ⟨0, 0⟩ ∧
      Returned (run (loggedOut logoutDuringRefresh)
        (authOrder logoutCalls (List.replicate 6 1))) 1 (some (samplePair ⟨1, 1⟩ ⟨1, 0⟩)) ∧
      Returned (run (loggedOut logoutDuringRefresh)
        (authOrder logoutCalls (List.replicate 6 1 ++ List.replicate 8 3))) 3
        (some (samplePair ⟨3, 1⟩ ⟨3, 0⟩)) :=
  ⟨by decide +kernel, by decide +kernel, by decide +kernel, by decide, rfl, rfl,
    returned_of_result (by decide +kernel), returned_of_result (by decide +kernel)⟩

end CleanArch
