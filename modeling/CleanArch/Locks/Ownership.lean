import CleanArch.Locks.RedisLock
import Mathlib.Data.List.Nodup

/-!
# Who removes a lock

The token under a lock key goes only by a release of the client that has set it, or by expiry. For
every task, whatever it calls, `lockPhases` says which tokens its commands carry.
-/

namespace CleanArch
namespace RedisLock

open Async Function List Sys

/-! ## The tokens of a task -/

/-- The tokens that task `t` can get. -/
def Possible (t : Tid) : (c : RedisAwait) → Except LockError c.Res → Prop
  | .newToken, .ok token => token.client = .task t
  | .keptToken _, .ok (some token) => token.client = .task t
  | .beginAcquire i, .ok token => token.client = .lock i
  | .beginRelease i, .ok (some token) => token.client = .lock i
  | _, _ => True

/-- The tokens that task `t` gives away, while it acquires with the token `q`. -/
def Allowed (t : Tid) (q : Option Token) : RedisAwait → Prop
  | .keepToken token => token.client = .task t
  | .setNx client _ token _ => q = some token ∧ token.client = client
  | .evalRelease client _ token => token.client = client ∧ client.ActsIn t
  | _ => True

/-- The token with which the task acquires, after an await. -/
def underWay (q : Option Token) : (c : RedisAwait) → Except LockError c.Res → Option Token
  | .newToken, .ok token => some token
  | .beginAcquire _, .ok token => some token
  | .setNx .., .ok false => q
  | .setNx .., _ => none
  | _, _ => q

/-- What task `t` does between two awaits, whatever it calls. -/
@[reducible] def lockPhases (t : Tid) : Phases RedisAwait RedisAwait.Res LockError where
  Phase := Option Token
  possible := Possible t
  allowed := Allowed t
  next := underWay

section Follows

open Phases

variable (resourceKey : String)

lemma acquireLoop_follows (htoken : token.client = .task t) (hq : q = some token) :
    (lockPhases t).Follows (Locks.acquireLoop
        (call (.setNx (.task t) (Locks.lockKey resourceKey) token px)) (call .sleep)
        (.acquisitionTimeout resourceKey) token tries)
      (fun r _ => ∀ token, r = .ok token → token.client = .task t) q := by
  induction tries with
  | zero =>
    refine follows_call_bind ⟨hq, htoken⟩ (fun set _ => ?_) (nofun)
    cases set with
    | true =>
      rintro _ ⟨⟩
      exact htoken
    | false => nofun
  | succ tries ih =>
    refine follows_call_bind ⟨hq, htoken⟩ (fun set _ => ?_) (nofun)
    cases set with
    | true =>
      rintro _ ⟨⟩
      exact htoken
    | false => exact follows_call_bind trivial (fun _ _ => ih) (nofun)

lemma asyncAcquire_follows : (lockPhases t).Follows (asyncAcquire t resourceKey ttlSeconds tries)
      (fun r _ => ∀ token, r = .ok token → token.client = .task t) q :=
  follows_call_bind trivial (fun _ htoken => acquireLoop_follows resourceKey htoken rfl)
    (nofun)

lemma asyncRelease_follows (htoken : token.client = .task t) :
    (lockPhases t).Follows (asyncRelease t resourceKey token) (fun _ _ => True) q := by
  refine follows_handle (follows_call ⟨htoken, rfl⟩ fun r _ => ?_)
  cases r with
  | ok => trivial
  | error => exact follows_ite (fun _ => trivial) fun _ => trivial

lemma keepToken_follows (htoken : token.client = .task t) :
    (lockPhases t).Follows (do call (.keepToken token); return token) (fun _ _ => True) q :=
  follows_call_bind htoken (fun _ _ => trivial) (fun _ _ => trivial)

variable (init : Nat → LockInit)

lemma lockAcquire_follows : (lockPhases t).Follows (lockAcquire init i) (fun _ _ => True) q := by
  refine follows_call_bind trivial (fun token htoken => ?_) (fun _ _ => trivial)
  refine follows_call_bind ⟨rfl, htoken⟩ (fun set _ => ?_) (fun _ _ => trivial)
  exact follows_call_bind trivial (fun _ _ => trivial) (fun _ _ => trivial)

lemma lockRelease_follows : (lockPhases t).Follows (lockRelease init i) (fun _ _ => True) q := by
  refine follows_call_bind trivial (fun found hfound => ?_) (fun _ _ => trivial)
  cases found with
  | none => trivial
  | some =>
    refine follows_bind (follows_attempt (follows_call ⟨hfound, trivial⟩ fun r _ => ?_))
    refine follows_bind (follows_call trivial fun r' _ => ?_)
    cases r' with
    | ok => exact follows_ofExcept trivial
    | error => trivial

lemma code_follows (m : LockMethod) :
    (lockPhases t).Follows (m.code init t) (fun _ _ => True) q := by
  cases m with
  | acquire resourceKey ttlSeconds tries =>
    refine follows_bind ((asyncAcquire_follows resourceKey).mono ?_)
    intro r q' hr
    cases r with
    | ok token => exact keepToken_follows (hr token rfl)
    | error => trivial
  | release resourceKey =>
    refine follows_call_bind trivial (fun found hfound => ?_) (fun _ _ => trivial)
    cases found with
    | none => trivial
    | some => exact asyncRelease_follows resourceKey hfound
  | makeToken =>
    exact follows_call_bind trivial (fun _ htoken => keepToken_follows htoken) (fun _ _ => trivial)
  | lockAcquire i => exact lockAcquire_follows init
  | lockRelease i => exact lockRelease_follows init

end Follows

/-! ## What the commands keep -/

/-- The locks in `s`, while the tasks acquire with the tokens `pending`: every token is set once,
and a key has the token of the one acquisition of it that is held. -/
structure Sound (s : RedisWorld) (pending : Tid → Option Token) : Prop where
  fields : ∀ i token, (s.locks i).token = some token → token.client = .lock i
  mirror : ∀ key x, s.keys key = some x ↔ ⟨x, key⟩ ∈ s.held
  known : ∀ a ∈ s.held, a ∈ s.acquisitions
  own : ∀ a ∈ s.acquisitions, a.stored.token.client = a.stored.setBy
  issued : ∀ a ∈ s.acquisitions, a.stored.token.number < s.issued a.stored.token.client
  once : (s.acquisitions.map (·.stored.token)).Nodup
  pending : ∀ t token, pending t = some token →
    token.number < s.issued token.client ∧ (∀ a ∈ s.acquisitions, a.stored.token ≠ token) ∧
      ∀ u, pending u = some token → u = t

lemma Reply.apply_snd {α : Type} {P : RedisWorld → Prop} (o : Reply) {x : α × RedisWorld}
    (hs : P s) (hx : P x.2) : P (o.apply s x).2 := by
  cases o with
  | done => exact hx
  | fails applied | cancels applied =>
    cases applied with
    | true => exact hx
    | false => exact hs

namespace Sound

variable {pending : Tid → Option Token}

lemma unique (h : Sound s pending) (ha : a ∈ s.acquisitions) (hb : b ∈ s.acquisitions)
    (hab : a.stored.token = b.stored.token) : a = b :=
  inj_on_of_nodup_map h.once ha hb hab

lemma exclusive (h : Sound s pending) (ha : a ∈ s.held) (hb : b ∈ s.held) (hkey : a.key = b.key) :
    a = b := by
  have hsa := (h.mirror a.key a.stored).mpr ha
  have hsb := (h.mirror b.key b.stored).mpr hb
  rw [hkey, hsb] at hsa
  obtain ⟨x, key⟩ := a
  obtain ⟨y, key'⟩ := b
  cases hkey
  cases hsa
  rfl

lemma fewer (h : Sound s pending)
    (hfewer : ∀ u token, pending' u = some token → pending u = some token) : Sound s pending' := by
  refine { h with pending := fun u token hu => ?_ }
  obtain ⟨hlt, hnew, huniq⟩ := h.pending u token (hfewer u token hu)
  exact ⟨hlt, hnew, fun v hv => huniq v (hfewer v token hv)⟩

lemma abandon (h : Sound s pending) : Sound s (update pending t none) := by
  refine h.fewer fun u token hu => ?_
  by_cases hut : u = t
  · rw [hut, update_self] at hu
    cases hu
  · rwa [update_of_ne hut] at hu

lemma issued_countToken_le (s : RedisWorld) (client : Client) :
    s.issued c ≤ (s.countToken client).issued c := by
  show s.issued c ≤ update s.issued client (s.issued client + 1) c
  by_cases hc : c = client
  · rw [hc, update_self]
    exact Nat.le_succ _
  · rw [update_of_ne hc]

lemma newToken (h : Sound s pending) (client : Client) :
    Sound (s.countToken client) (update pending t (some (s.newToken client))) := by
  have hfresh : ∀ token : Token, token.number < s.issued token.client →
      token ≠ s.newToken client := by
    rintro token hlt rfl
    exact lt_irrefl _ hlt
  refine { h with issued := fun a ha => ?_, pending := fun u token hu => ?_ }
  · exact (h.issued a ha).trans_le (issued_countToken_le s client)
  · by_cases hut : u = t
    · rw [hut, update_self] at hu
      cases hu
      refine ⟨?_, fun a ha => hfresh _ (h.issued a ha), fun v hv => ?_⟩
      · show s.issued client < update s.issued client (s.issued client + 1) client
        rw [update_self]
        exact Nat.lt_succ_self _
      · by_contra hvu
        rw [update_of_ne (fun hvt => hvu (hvt.trans hut.symm))] at hv
        exact hfresh _ (h.pending v _ hv).1 rfl
    · rw [update_of_ne hut] at hu
      obtain ⟨hlt, hnew, huniq⟩ := h.pending u token hu
      refine ⟨hlt.trans_le (issued_countToken_le s client), hnew, fun v hv => ?_⟩
      by_cases hvt : v = t
      · rw [hvt, update_self] at hv
        cases hv
        exact absurd rfl (hfresh _ hlt)
      · rw [update_of_ne hvt] at hv
        exact huniq v hv

lemma setLock (h : Sound s pending) {fields : DistributedLock}
    (hfields : ∀ token, fields.token = some token → token.client = .lock i) :
    Sound (s.setLock i fields) pending := by
  refine { h with fields := fun j token hj => ?_ }
  change (update s.locks i fields j).token = some token at hj
  by_cases hji : j = i
  · rw [hji, update_self] at hj
    rw [hji]
    exact hfields token hj
  · rw [update_of_ne hji] at hj
    exact h.fields j token hj

lemma setKey (h : Sound s pending) (ht : pending t = some x.token) (hx : x.token.client = x.setBy)
    (hkey : s.keys key = none) : Sound { s with
      keys := update s.keys key (some x)
      acquisitions := s.acquisitions ++ [⟨x, key⟩]
      held := s.held ++ [⟨x, key⟩] } (update pending t none) := by
  obtain ⟨hlt, hnew, huniq⟩ := h.pending t x.token ht
  constructor
  · exact h.fields
  · intro key' y
    show update s.keys key (some x) key' = some y ↔ _ ∈ s.held ++ [⟨x, key⟩]
    rw [mem_append, mem_singleton, Acquisition.mk.injEq, ← h.mirror]
    by_cases hk : key' = key
    · rw [hk, update_self, hkey]
      simp [eq_comm]
    · simp [hk]
  · intro a ha
    exact (mem_append.mp ha).elim (fun ha => mem_append_left _ (h.known a ha)) (mem_append_right _)
  · exact forall_mem_append.mpr ⟨h.own, forall_mem_singleton.mpr hx⟩
  · exact forall_mem_append.mpr ⟨h.issued, forall_mem_singleton.mpr hlt⟩
  · rw [map_append, map_singleton, ← concat_eq_append]
    refine h.once.concat ?_
    rintro hmem
    obtain ⟨a, ha, heq⟩ := mem_map.mp hmem
    exact hnew a ha heq
  · intro u token hu
    obtain ⟨hlt', hnew', huniq'⟩ := h.abandon.pending u token hu
    refine ⟨hlt', forall_mem_append.mpr ⟨hnew', forall_mem_singleton.mpr ?_⟩, huniq'⟩
    -- only task `t` had this token
    rintro rfl
    by_cases hut : u = t
    · rw [hut, update_self] at hu
      cases hu
    · rw [update_of_ne hut] at hu
      exact hut (huniq u hu)

lemma dropKey (h : Sound s pending) (hp : ∀ a ∈ s.held, p a = false ↔ a.key = key) :
    Sound { s with keys := update s.keys key none, held := s.held.filter p } pending := by
  refine { h with mirror := fun key' x => ?_, known := fun a ha => ?_ }
  · show update s.keys key none key' = some x ↔ _ ∈ s.held.filter p
    rw [mem_filter]
    by_cases hk : key' = key
    · rw [hk, update_self]
      constructor
      · nofun
      · rintro ⟨hheld, hpx⟩
        rw [(hp _ hheld).mpr rfl] at hpx
        cases hpx
    · rw [update_of_ne hk, h.mirror]
      refine ⟨fun hheld => ⟨hheld, ?_⟩, And.left⟩
      by_contra hpx
      exact hk ((hp _ hheld).mp (Bool.eq_false_iff.mpr hpx))
  · exact h.known a (mem_of_mem_filter ha)

lemma evalRelease_other (h : Sound s pending) (hne : (s.keys key).map (·.token) ≠ some token) :
    (s.evalRelease key token).2 = s := by
  have hheld : s.held.filter (fun a => ¬ (a.key = key ∧ a.stored.token = token)) = s.held := by
    rw [filter_eq_self]
    intro a ha
    rw [decide_eq_true_eq]
    rintro ⟨rfl, rfl⟩
    rw [(h.mirror a.key a.stored).mpr ha] at hne
    exact hne rfl
  simp only [RedisWorld.evalRelease, if_neg hne, hheld]

lemma evalRelease (h : Sound s pending) (key : String) (token : Token) :
    Sound (s.evalRelease key token).2 pending := by
  by_cases heq : (s.keys key).map (·.token) = some token
  · simp only [RedisWorld.evalRelease, if_pos heq]
    refine h.dropKey fun a ha => ?_
    rw [decide_eq_false_iff_not, not_not]
    refine ⟨And.left, fun hkey => ⟨hkey, ?_⟩⟩
    rw [← hkey, (h.mirror a.key a.stored).mpr ha] at heq
    exact Option.some.inj heq
  · rw [h.evalRelease_other heq]
    exact h

lemma world (h : Sound s pending) (e : RedisEnv) : Sound (e.exec s) pending := by
  cases e with
  | advance => exact { h with }
  | expire key =>
    simp only [RedisEnv.exec]
    split
    · next hany =>
      obtain ⟨x, hx, hle⟩ := (Option.any_eq_true _ _).mp hany
      refine h.dropKey fun a ha => ?_
      rw [decide_eq_false_iff_not, not_not]
      refine ⟨And.left, fun hkey => ⟨hkey, ?_⟩⟩
      have hstored := (h.mirror a.key a.stored).mpr ha
      rw [hkey, hx] at hstored
      cases hstored
      exact of_decide_eq_true hle
    · exact h

lemma exec (h : Sound s pending) (hc : Allowed t (pending t) c) (o : Reply) (l : List Token) :
    Sound (c.exec t o l s).2.2 (update pending t (underWay (pending t) c (c.exec t o l s).1)) := by
  cases c with
  | newToken => exact h.newToken _
  | beginAcquire i =>
    refine (h.newToken (.lock i)).setLock ?_
    rintro _ ⟨⟩
    rfl
  | setNx client key token px =>
    obtain ⟨ht, hclient⟩ := hc
    simp only [RedisAwait.exec, RedisWorld.setNx]
    cases hkey : s.keys key with
    | some =>
      cases o with
      | done => simpa [Reply.apply, underWay] using h
      | fails | cancels => simpa [Reply.apply, underWay] using h.abandon
    | none =>
      have hset := h.setKey (x := ⟨token, client, s.now + px⟩) ht hclient hkey
      cases o with
      | done => exact hset
      | fails applied | cancels applied =>
        cases applied with
        | true => exact hset
        | false => exact h.abandon
  | evalRelease client key token =>
    simp only [RedisAwait.exec, underWay, update_eq_self]
    exact o.apply_snd (P := fun s => Sound s pending) h (h.evalRelease key token)
  | endAcquire i result =>
    simp only [underWay, update_eq_self]
    refine h.setLock fun token htoken => ?_
    cases result with
    | true => exact h.fields i token htoken
    | false => cases htoken
  | endRelease =>
    simp only [underWay, update_eq_self]
    exact h.setLock nofun
  | keepToken | keptToken | sleep | beginRelease =>
    simp only [underWay, update_eq_self]
    exact h

end Sound

/-! ## Runs -/

section Runs

variable {init : Nat → LockInit} {tasks : Tid → Task}

/-- The invariant of a run. -/
structure LockInv (c : (redisSys init tasks).Config) (pending : Tid → Option Token) : Prop where
  follows : ∀ t, (lockPhases t).Follows (c.thr t).2 (fun _ _ => True) (pending t)
  kept : ∀ t, ∀ token ∈ (c.thr t).1, token.client = .task t
  sound : Sound c.sh pending

variable {c : (redisSys init tasks).Config} {pending : Tid → Option Token}

lemma LockInv.start : LockInv (start (S := redisSys init tasks) {}) fun _ => none where
  follows t := Phases.follows_interp (I := fun _ => True)
    (fun m _ _ => code_follows init m) (tasks t) trivial
  kept t token htoken := by cases htoken
  sound := ⟨nofun, fun _ _ => ⟨nofun, nofun⟩, nofun, nofun, nofun, nodup_nil, nofun⟩

lemma LockInv.possible (h : LockInv c pending) (t : Tid) (o : Reply) :
    Possible t r (r.exec t o (c.thr t).1 c.sh).1 := by
  cases r with
  | newToken | beginAcquire i => rfl
  | keptToken i =>
    simp only [RedisAwait.exec]
    cases hl : (c.thr t).1[i]? with
    | none => trivial
    | some token => exact h.kept t token (mem_of_getElem? hl)
  | beginRelease i =>
    simp only [RedisAwait.exec]
    split
    · cases hl : (c.sh.locks i).token with
      | none => trivial
      | some token => exact h.sound.fields i token hl
    · trivial
  | _ => trivial

lemma LockInv.turn (h : LockInv c pending) (t : Tid) (o : Reply) :
    ∃ pending', LockInv (Sys.step c (.turn t o)) pending' := by
  rcases (c.thr t).2.ended_or_awaits with hn | ⟨r, k, hp⟩
  · rw [step_ended hn]
    exact ⟨pending, h⟩
  · have hfollows := h.follows t
    rw [hp] at hfollows
    rw [step_await hp]
    refine ⟨_, ?_, ?_, h.sound.exec hfollows.1 o (c.thr t).1⟩
    · intro u
      rcases eq_or_ne u t with rfl | hut
      · simpa only [update_self] using hfollows.step (h.possible u o)
      · simpa only [update_of_ne hut] using h.follows u
    · intro u token htoken
      rcases eq_or_ne u t with rfl | hut
      · simp only [update_self] at htoken
        cases r with
        | keepToken =>
          rcases mem_append.mp htoken with hmem | hmem
          · exact h.kept u token hmem
          · rw [mem_singleton.mp hmem]
            exact hfollows.1
        | _ => exact h.kept u token htoken
      · simp only [update_of_ne hut] at htoken
        exact h.kept u token htoken

lemma LockInv.step (h : LockInv c pending) (e : (redisSys init tasks).Event) :
    ∃ pending', LockInv (Sys.step c e) pending' := by
  cases e with
  | turn t o => exact h.turn t o
  | world e => exact ⟨pending, h.follows, h.kept, h.sound.world e⟩

lemma lockInv_run (es : List (redisSys init tasks).Event) :
    ∃ pending, LockInv (run (start (S := redisSys init tasks) {}) es) pending := by
  refine (Steps.always_of_step (P := fun c => ∃ pending, LockInv c pending) ?_
    ⟨_, LockInv.start⟩ es).last
  rintro c e ⟨pending, h⟩
  exact h.step e

/-- With the event `e`, task `t` sends the release of a token by a client. -/
def Releases (c : (redisSys init tasks).Config) (e : (redisSys init tasks).Event) (t : Tid)
    (client : Client) (key : String) (token : Token) : Prop :=
  ∃ o k, e = .turn t o ∧ (c.thr t).2 = .await (.evalRelease client key token) k

/-- What the event `e` leaves of the locks. -/
structure Owned (c : (redisSys init tasks).Config) (e : (redisSys init tasks).Event) : Prop where
  /-- A key keeps its token until the client that has set it releases it, or until it expires. -/
  stored : ∀ key x, c.sh.keys key = some x → (Sys.step c e).sh.keys key = some x ∨
    (∃ t, x.setBy.ActsIn t ∧ Releases c e t x.setBy key x.token) ∨
    (e = .world (.expire key) ∧ x.expiresAt ≤ c.sh.now)
  /-- At most one acquisition of a key is neither released nor expired. -/
  exclusive : ∀ a ∈ c.sh.held, ∀ b ∈ c.sh.held, a.key = b.key → a = b
  /-- The release of an acquisition that has ended removes nothing. -/
  late : ∀ a ∈ c.sh.acquisitions, a ∉ c.sh.held → ∀ t client key,
    Releases c e t client key a.stored.token →
      (Sys.step c e).sh.keys = c.sh.keys ∧ (Sys.step c e).sh.held = c.sh.held

lemma exec_keys {r : RedisAwait} (hr : ∀ client key token, r ≠ .evalRelease client key token)
    (hx : s.keys key = some x) : (r.exec t o l s).2.2.keys key = some x := by
  cases r with
  | evalRelease client key token => exact absurd rfl (hr client key token)
  | setNx client key' token px =>
    have hset : (s.setNx client key' token px).2.keys key = some x := by
      unfold RedisWorld.setNx
      cases hkey : s.keys key' with
      | some => exact hx
      | none =>
        have hne : key ≠ key' := by
          rintro rfl
          rw [hx] at hkey
          cases hkey
        exact (update_of_ne hne _ _).trans hx
    exact o.apply_snd (P := fun s => s.keys key = some x) hx hset
  | _ => exact hx

lemma evalRelease_keys (o : Reply) (hx : s.keys key = some x)
    (hne : ¬ (key = key' ∧ x.token = token)) :
    (o.apply s (s.evalRelease key' token)).2.keys key = some x := by
  refine o.apply_snd (P := fun s => s.keys key = some x) hx ?_
  unfold RedisWorld.evalRelease
  split
  · next heq =>
    refine (update_of_ne ?_ _ _).trans hx
    rintro rfl
    rw [hx] at heq
    exact hne ⟨rfl, Option.some.inj heq⟩
  · exact hx

lemma LockInv.stored (h : LockInv c pending) (e : (redisSys init tasks).Event)
    (hx : c.sh.keys key = some x) : (Sys.step c e).sh.keys key = some x ∨
      (∃ t, x.setBy.ActsIn t ∧ Releases c e t x.setBy key x.token) ∨
      (e = .world (.expire key) ∧ x.expiresAt ≤ c.sh.now) := by
  cases e with
  | world e =>
    cases e with
    | advance => exact .inl hx
    | expire key' =>
      show ((RedisEnv.expire key').exec c.sh).keys key = some x ∨ _
      simp only [RedisEnv.exec]
      split
      · next hany =>
        by_cases hk : key = key'
        · subst hk
          rw [hx] at hany
          exact .inr (.inr ⟨rfl, of_decide_eq_true hany⟩)
        · exact .inl ((update_of_ne hk _ _).trans hx)
      · exact .inl hx
  | turn t o =>
    rcases (c.thr t).2.ended_or_awaits with hn | ⟨r, k, hp⟩
    · rw [step_ended hn]
      exact .inl hx
    · by_cases hr : ∀ client key token, r ≠ .evalRelease client key token
      · rw [step_await hp]
        exact .inl (exec_keys hr hx)
      · push Not at hr
        obtain ⟨client, key', token, rfl⟩ := hr
        have hfollows := h.follows t
        rw [hp] at hfollows
        obtain ⟨⟨htoken, hacts⟩, -⟩ := hfollows
        by_cases heq : key = key' ∧ x.token = token
        · -- the token of the key is the one that is released, so the clients are the same
          obtain ⟨rfl, rfl⟩ := heq
          have hown := h.sound.own _ (h.sound.known _ ((h.sound.mirror key x).mp hx))
          have hclient : client = x.setBy := htoken.symm.trans hown
          subst hclient
          exact .inr (.inl ⟨t, hacts, o, k, rfl, hp⟩)
        · rw [step_await hp]
          exact .inl (evalRelease_keys o hx heq)

lemma LockInv.late (h : LockInv c pending) (ha : a ∈ c.sh.acquisitions) (hended : a ∉ c.sh.held)
    {client : Client} (hr : Releases c e t client key a.stored.token) :
    (Sys.step c e).sh = c.sh := by
  obtain ⟨o, k, rfl, hp⟩ := hr
  have hne : (c.sh.keys key).map (·.token) ≠ some a.stored.token := by
    intro heq
    obtain ⟨x, hx, htoken⟩ := Option.map_eq_some_iff.mp heq
    have hheld := (h.sound.mirror key x).mp hx
    -- the token was set once, so this is the acquisition that has ended
    have hax := h.sound.unique ha (h.sound.known _ hheld) htoken.symm
    exact hended (hax ▸ hheld)
  rw [step_await hp]
  exact Reply.apply_snd (P := fun s => s = c.sh) o rfl (h.sound.evalRelease_other hne)

/-- In every run of tasks over the two locks, the token under a key goes only by a release of the
client that has set it or by expiry. -/
theorem lock_ownership (init : Nat → LockInit) (tasks : Tid → Task)
    (es : List (redisSys init tasks).Event) (e : (redisSys init tasks).Event) :
    Owned (run (start {}) es) e := by
  obtain ⟨pending, h⟩ := lockInv_run es
  refine ⟨fun key x hx => h.stored e hx, ?_, ?_⟩
  · intro a ha b hb hkey
    exact h.sound.exclusive ha hb hkey
  · intro a ha hended t client key hr
    rw [h.late ha hended hr]
    exact ⟨rfl, rfl⟩

/-- Both tasks lock one resource; the first keeps it for longer than its TTL and releases it when
the second has it. -/
def lateRelease (_ : Tid) : Task := do
  let _ ← Prog.call (.acquire "account:1" 1 0)
  let _ ← Prog.call (.release "account:1" 0)

example :
    let c := run (S := redisSys (fun _ => ⟨"job", 5000⟩) lateRelease) (start {})
      [.turn 0 .done, .turn 0 .done, .turn 0 .done, .world (.advance 1000),
        .world (.expire "lock:account:1"), .turn 1 .done, .turn 1 .done,
        .turn 0 .done, .turn 0 .done]
    c.sh.held = [⟨⟨⟨.task 1, 0⟩, .task 1, 2000⟩, "lock:account:1"⟩] ∧
      (c.thr 0).2.result?.isSome = true := by
  decide +kernel

end Runs

end RedisLock
end CleanArch
