import CleanArch.Users.Service

/-!
# Runs of the user service

What the methods of the service do when nothing else runs (`UserWorld.Runs`).
-/

namespace CleanArch

open Assoc Async InMemoryUnitOfWork Machine Objects Prog UserRepository

section Runs

variable [PyCase] [Sha256] {α β : Type} {ok : UserAnswer → Prop} {w : UserWorld}

/-- What holds of the result and of the world at the end of a program. -/
abbrev UserPost (α : Type) := Except UserError α → UserWorld → Prop

/-- Every run from `w` alone, with answers in `ok`, ends in `Q`. -/
def UserWorld.Runs (ok : UserAnswer → Prop) (w : UserWorld) (p : UserProg α) (Q : UserPost α) :
    Prop :=
  userMachine.Ends ok 0 p (fun r _ w => Q r w) () w

variable {p : UserProg α} {Q : UserPost α}

lemma UserWorld.Runs.mono (h : w.Runs ok p Q) (hQ : ∀ r w, Q r w → Q' r w) : w.Runs ok p Q' :=
  Machine.Ends.mono h fun r _ w => hQ r w

lemma UserWorld.Runs.run (h : w.Runs ok p Q) {o : Nat → UserAnswer} (ho : ∀ n, ok (o n)) :
    Q (w.run p o).1 (w.run p o).2 :=
  run_of_ends h ho

lemma UserWorld.Runs.run_any (h : w.Runs (fun _ => True) p Q) (o : Nat → UserAnswer) :
    Q (w.run p o).1 (w.run p o).2 :=
  h.run fun _ => trivial

@[simp] lemma runs_ret {a : α} : w.Runs ok (.ret a) Q ↔ Q (.ok a) w := Iff.rfl

@[simp] lemma runs_ofExcept {x : Except UserError α} : w.Runs ok (Prog.ofExcept x) Q ↔ Q x w :=
  ends_ofExcept

@[simp] lemma runs_bind {f : β → UserProg α} :
    w.Runs ok (q.bind f) Q ↔ w.Runs ok q fun r w => match r with
      | .ok b => w.Runs ok (f b) Q
      | .error e => Q (.error e) w := by
  unfold UserWorld.Runs
  rw [ends_bind]
  refine iff_of_eq (congrArg (fun Q => userMachine.Ends ok 0 q Q () w) ?_)
  funext r l w
  cases r <;> rfl

lemma UserWorld.Runs.discard {F : UserWorld → Prop} (h : w.Runs ok q fun _ w => F w) :
    w.Runs ok (q.bind fun _ => .ret ()) fun _ w => F w :=
  runs_bind.mpr (h.mono fun x _ hF => by cases x <;> exact hF)

@[simp] lemma runs_handle {h : UserError → UserProg α} :
    w.Runs ok (p.handle h) Q ↔ w.Runs ok p fun r w => match r with
      | .ok a => Q (.ok a) w
      | .error e => w.Runs ok (h e) Q := by
  unfold UserWorld.Runs
  rw [ends_handle]
  refine iff_of_eq (congrArg (fun Q => userMachine.Ends ok 0 p Q () w) ?_)
  funext r l w
  cases r <;> rfl

@[simp] lemma runs_attempt {Q : UserPost (Except UserError β)} :
    w.Runs ok q.attempt Q ↔ w.Runs ok q fun r => Q (.ok r) :=
  ends_attempt

lemma runs_raiseIf [Decidable c] {Q : UserPost Unit}
    (herr : c → Q (.error e) w) (hok : ¬ c → Q (.ok ()) w) : w.Runs ok (raiseIf c e) Q := by
  unfold raiseIf
  split
  · exact herr ‹_›
  · exact hok ‹_›

lemma runs_ite [Decidable c] {q : UserProg α} (hp : c → w.Runs ok p Q) (hq : ¬ c → w.Runs ok q Q) :
    w.Runs ok (if c then p else q) Q := by
  split
  · exact hp ‹_›
  · exact hq ‹_›

/-! ## Requests -/

omit [PyCase] [Sha256] in
@[simp] lemma UserWorld.eta (w : UserWorld) : UserWorld.mk w.db w.index w.redis = w := rfl

@[simp] lemma runs_repo {Q : UserPost c.Res} :
    UserWorld.Runs (α := no_index c.Res) ok w (repo c) Q ↔
      ∀ o, ok o → Q (c.exec o w.db).1 { w with db := (c.exec o w.db).2 } :=
  ends_call

@[simp] lemma runs_index {Q : UserPost c.Res} :
    UserWorld.Runs (α := no_index c.Res) ok w (index c) Q ↔
      ∀ o, ok o → Q (c.exec w.index).1 { w with index := (c.exec w.index).2 } :=
  ends_call

lemma runs_userRedis {Q : UserPost c.Res}
    (hdone : Q (.ok (c.apply w.redis).1) { w with redis := (c.apply w.redis).2 })
    (hfault : (∃ o, ok o ∧ o.fault ≠ none) → Q (.error .redisError) w ∧
      Q (.error .redisError) { w with redis := (c.apply w.redis).2 }) :
    w.Runs ok (userRedis c) Q := by
  refine ends_call.mpr fun o ho => ?_
  simp only [UserCmd.exec, UserRedisCmd.exec, withFault]
  cases hf : o.fault with
  | none => exact hdone
  | some f =>
    have hboth := hfault ⟨o, ho, by simp [hf]⟩
    cases f with
    | refused => exact hboth.1
    | lostReply => exact hboth.2

@[simp] lemma runs_outside {Q : UserPost c.Res} :
    UserWorld.Runs (α := no_index c.Res) ok w (outside c) Q ↔ ∀ o, ok o → Q (.ok (c.answer o)) w :=
  ends_call

/-! ## `get_user_by_id` -/

def Missed (ok : UserAnswer → Prop) (deps : UserDeps) (w : UserWorld) (userId : Int) : Prop :=
  deps.cache = true → find w.redis.cache userId = none ∨ ∃ o, ok o ∧ o.fault ≠ none

/-- What `get_user_by_id` does to the world, and its result. -/
inductive Got (ok : UserAnswer → Prop) (deps : UserDeps) (w : UserWorld) (userId : Int) :
    Except UserError UserView → UserWorld → Prop where
  | rejected (hb : deps.bloom = true) (hc : w.index.bloom.contains (.number userId) = false) :
    Got ok deps w userId (.error (.userNotFound userId)) w
  | missing (hm : Missed ok deps w userId) (hr : find w.db.users.store userId = none) :
    Got ok deps w userId (.error (.userNotFound userId)) w
  | cached (doc : UserEntity) (hc : deps.cache = true)
    (hdoc : find w.redis.cache userId = some doc) :
    Got ok deps w userId (.ok (.copy (deserializeUser doc))) w
  | stored (r : Ref) (hm : Missed ok deps w userId) (hr : find w.db.users.store userId = some r)
    (cache : List (Int × UserEntity)) (hcache : cache = w.redis.cache ∨
      cache = set w.redis.cache userId (w.db.users.heap.read r)) :
    Got ok deps w userId (.ok (.stored r)) { w with redis.cache := cache }

variable (deps : UserDeps) (userId : Int)

lemma runs_cachedUser : w.Runs ok (cachedUser deps userId) fun r w' => w' = w ∧
      ((∃ doc, deps.cache = true ∧ find w.redis.cache userId = some doc ∧
        r = .ok (some (deserializeUser doc))) ∨ (Missed ok deps w userId ∧ r = .ok none)) := by
  unfold cachedUser
  by_cases hc : deps.cache = true
  · simp only [hc, if_true, bind_eq, runs_handle, runs_bind]
    refine runs_userRedis ?_ fun hfault => ?_
    · simp only [UserRedisCmd.apply]
      cases hdoc : find w.redis.cache userId with
      | none => simp [Missed, hdoc]
      | some => simp
    · simp [Missed, hfault, UserRedisCmd.apply]
  · simp [hc, Missed]

lemma runs_bloomGuard : w.Runs ok (bloomGuard deps userId) fun r w' => w' = w ∧ (r = .ok () ∨
      (deps.bloom = true ∧ w.index.bloom.contains (.number userId) = false ∧
        r = .error (.userNotFound userId))) := by
  unfold bloomGuard
  by_cases hb : deps.bloom = true
  · simp only [hb, if_true, bind_eq, runs_bind, runs_index, IndexCmd.exec, UserWorld.eta]
    refine fun o _ => runs_raiseIf (fun hc => ?_) fun _ => ?_ <;> simp_all
  · simp [hb]

def CacheAfter (ok : UserAnswer → Prop) (deps : UserDeps)
    (old new cache : List (Int × UserEntity)) : Prop :=
  (deps.cache = true ∧ cache = new) ∨
    (cache = old ∧ (deps.cache = true → ∃ o, ok o ∧ o.fault ≠ none))

/-- A write to the cache that may fail, if there is a cache. -/
lemma runs_ifCache {p : UserProg Unit} {new : List (Int × UserEntity)}
    (hp : ∀ {Q : UserPost Unit}, Q (.ok ()) { w with redis.cache := new } →
      ((∃ o, ok o ∧ o.fault ≠ none) → Q (.error .redisError) w ∧
        Q (.error .redisError) { w with redis.cache := new }) → w.Runs ok p Q) :
    w.Runs ok (if deps.cache then tolerate p else pure ()) fun res w' => res = .ok () ∧
      ∃ cache, w' = { w with redis.cache := cache } ∧
        CacheAfter ok deps w.redis.cache new cache := by
  refine runs_ite (fun hc => runs_handle.mpr (hp ?_ fun hfault => ⟨?_, ?_⟩)) fun hc => ?_
  · exact ⟨rfl, _, rfl, .inl ⟨hc, rfl⟩⟩
  · exact ⟨rfl, _, rfl, .inr ⟨rfl, fun _ => hfault⟩⟩
  · exact ⟨rfl, _, rfl, .inl ⟨hc, rfl⟩⟩
  · exact ⟨rfl, w.redis.cache, rfl, .inr ⟨rfl, fun h => absurd h hc⟩⟩

lemma runs_storeInCache :
    w.Runs ok (storeInCache deps userId r) fun res w' => res = .ok () ∧ ∃ cache,
      w' = { w with redis.cache := cache } ∧ CacheAfter ok deps w.redis.cache
        (set w.redis.cache userId (w.db.users.heap.read r)) cache :=
  runs_ifCache deps fun hdone hfault =>
    runs_bind.mpr (runs_repo.mpr fun _ _ => runs_userRedis hdone hfault)

lemma runs_evict : w.Runs ok (evict deps userId) fun res w' => res = .ok () ∧ ∃ cache,
      w' = { w with redis.cache := cache } ∧
        CacheAfter ok deps w.redis.cache (erase w.redis.cache userId) cache :=
  runs_ifCache deps fun hdone hfault => runs_userRedis hdone hfault

lemma runs_getUserById : w.Runs ok (getUserById deps userId) (Got ok deps w userId) := by
  unfold getUserById
  simp only [bind_eq, runs_bind]
  refine (runs_bloomGuard deps userId).mono ?_
  rintro _ _ ⟨rfl, rfl | ⟨hb, hrej, rfl⟩⟩
  · refine (runs_cachedUser deps userId).mono ?_
    rintro _ w ⟨rfl, ⟨doc, hc, hdoc, rfl⟩ | ⟨hm, rfl⟩⟩
    · exact .cached doc hc hdoc
    · simp only [runs_bind, runs_repo, RepoCmd.exec, getById, UserWorld.eta]
      intro o _
      cases hr : find w.db.users.store userId with
      | none => exact .missing hm hr
      | some r =>
        refine (runs_storeInCache deps userId).mono ?_
        rintro _ _ ⟨rfl, cache, rfl, hcache⟩
        refine .stored r hm hr cache ?_
        rcases hcache with ⟨-, h⟩ | ⟨h, -⟩
        · exact .inr h
        · exact .inl h
  · exact .rejected hb hrej

lemma runs_getUserById_rejected {deps : UserDeps} {userId : Int} (hb : deps.bloom = true)
    (hc : w.index.bloom.contains (.number userId) = false) :
    w.Runs ok (getUserById deps userId) fun r _ => r = .error (.userNotFound userId) := by
  have hguard : bloomGuard deps userId = (index (.bloomContains userId)).bind fun known =>
      raiseIf (known = false) (.userNotFound userId) := if_pos hb
  unfold getUserById
  rw [hguard]
  refine runs_bind.mpr (runs_bind.mpr (runs_index.mpr fun _ _ => ?_))
  exact runs_raiseIf (fun _ => rfl) fun h => absurd hc h

/-! ## `get_user_by_id_xfetch` -/

/-- What `get_user_by_id_xfetch` does to the world, and its result. -/
inductive Xfetched (deps : UserDeps) (w : UserWorld) (userId : Int) :
    Except UserError UserView → UserWorld → Prop where
  | rejected (hb : deps.bloom = true) (hc : w.index.bloom.contains (.number userId) = false) :
    Xfetched deps w userId (.error (.userNotFound userId)) w
  | missing (locks : List Int) (hr : find w.db.users.store userId = none) :
    Xfetched deps w userId (.error (.userNotFound userId)) { w with redis.locks := locks }
  | warm (hc : deps.cache = true) (envelope : XFetchEnvelope Time UserEntity) (locks : List Int)
    (he : find w.redis.envelopes userId = some envelope) :
    Xfetched deps w userId (.ok (.copy (deserializeUser envelope.val)))
      { w with redis.locks := locks }
  | uncached (r : Ref) (hr : find w.db.users.store userId = some r) :
    Xfetched deps w userId (.ok (.stored r)) w
  | fresh (hc : deps.cache = true) (r : Ref) (envelope : XFetchEnvelope Time UserEntity)
    (envelopes : List (Int × XFetchEnvelope Time UserEntity)) (locks : List Int)
    (hr : find w.db.users.store userId = some r) (hval : envelope.val = w.db.users.heap.read r)
    (he : envelopes = w.redis.envelopes ∨ envelopes = set w.redis.envelopes userId envelope) :
    Xfetched deps w userId (.ok (.copy (deserializeUser (w.db.users.heap.read r))))
      { w with redis := { cache := w.redis.cache, envelopes := envelopes, locks := locks } }

lemma runs_setNxLock {Q : UserPost Bool}
    (h : ∀ acquired locks, Q (.ok acquired) { w with redis.locks := locks }) :
    w.Runs ok ((userRedis (.setNxLock key)).handle fun _ => pure true) Q := by
  have happly : ∃ acquired locks, UserRedisCmd.apply w.redis (.setNxLock key) =
      (acquired, { w.redis with locks := locks }) := by
    simp only [UserRedisCmd.apply]
    split
    · exact ⟨false, w.redis.locks, rfl⟩
    · exact ⟨true, _, rfl⟩
  obtain ⟨acquired, locks, heq⟩ := happly
  refine runs_handle.mpr (runs_userRedis ?_ fun _ => ⟨h true w.redis.locks, ?_⟩)
  · rw [heq]
    exact h acquired locks
  · rw [heq]
    exact h true locks

lemma runs_deleteLock {Q : UserPost Unit}
    (h : ∀ locks, Q (.ok ()) { w with redis.locks := locks }) :
    w.Runs ok (tolerate (userRedis (.deleteLock key))) Q :=
  runs_handle.mpr (runs_userRedis (h _) fun _ => ⟨h w.redis.locks, h _⟩)

lemma runs_serveWarm : w.Runs ok (serveWarm deps key now beta randVal raw) fun r w' => ∃ locks,
      w' = { w with redis.locks := locks } ∧
        (r = .ok none ∨ ∃ envelope, raw = some envelope ∧ r = .ok (some envelope.val)) := by
  cases raw with
  | none =>
    exact runs_bind.mpr (runs_outside.mpr fun _ _ => ⟨w.redis.locks, rfl, .inl rfl⟩)
  | some envelope =>
    refine runs_bind.mpr (runs_outside.mpr fun o _ => runs_ite (fun _ => ?_) fun _ => ?_)
    · refine runs_bind.mpr (runs_setNxLock fun acquired locks => ?_)
      refine runs_ite (fun _ => ?_) fun _ => ?_
      · exact runs_bind.mpr (runs_outside.mpr fun _ _ => ⟨locks, rfl, .inl rfl⟩)
      · exact runs_bind.mpr (runs_outside.mpr fun _ _ => ⟨locks, rfl, .inr ⟨envelope, rfl, rfl⟩⟩)
    · exact runs_bind.mpr (runs_outside.mpr fun _ _ =>
        ⟨w.redis.locks, rfl, .inr ⟨envelope, rfl, rfl⟩⟩)

lemma runs_computeAndStore (hcompute : ∀ {Q : UserPost UserEntity}, Q x w → w.Runs ok compute Q) :
    w.Runs ok (computeAndStore key compute ttl now) fun r w' => r = x ∧ ∃ envelopes locks,
      w' = { w with redis := ⟨w.redis.cache, envelopes, locks⟩ } ∧
        (envelopes = w.redis.envelopes ∨ ∃ envelope, x = .ok envelope.val ∧
          envelopes = set w.redis.envelopes key envelope) := by
  refine runs_bind.mpr (runs_outside.mpr fun _ _ => runs_bind.mpr ?_)
  refine runs_bind.mpr (runs_attempt.mpr (hcompute (runs_bind.mpr ?_)))
  refine runs_deleteLock fun locks => runs_ofExcept.mpr ?_
  cases x with
  | error => exact ⟨rfl, w.redis.envelopes, locks, rfl, .inl rfl⟩
  | ok =>
    refine runs_bind.mpr (runs_outside.mpr fun _ _ => runs_bind.mpr (runs_handle.mpr ?_))
    refine runs_userRedis ?_ fun _ => ⟨?_, ?_⟩
    · exact ⟨rfl, _, locks, rfl, .inr ⟨_, rfl, rfl⟩⟩
    · exact ⟨rfl, w.redis.envelopes, locks, rfl, .inl rfl⟩
    · exact ⟨rfl, _, locks, rfl, .inr ⟨_, rfl, rfl⟩⟩

/-- The entity of a stored user, or `UserNotFoundException`. -/
def storedUser (w : UserWorld) (userId : Int) : Except UserError UserEntity :=
  match find w.db.users.store userId with
  | none => .error (.userNotFound userId)
  | some r => .ok (w.db.users.heap.read r)

lemma runs_computeUser {Q : UserPost UserEntity} (h : Q (storedUser w userId) w) :
    w.Runs ok (computeUser userId) Q := by
  unfold storedUser at h
  refine runs_bind.mpr (runs_repo.mpr fun _ _ => ?_)
  simp only [RepoCmd.exec, getById]
  cases hr : find w.db.users.store userId with
  | none =>
    rw [hr] at h
    exact h
  | some =>
    rw [hr] at h
    exact runs_bind.mpr (runs_repo.mpr fun _ _ => h)

def XfetchedUser (w : UserWorld) (userId : Int) (r : Except UserError UserEntity)
    (w' : UserWorld) : Prop :=
  ∃ envelopes locks, w' = { w with redis := ⟨w.redis.cache, envelopes, locks⟩ } ∧
    ((envelopes = w.redis.envelopes ∧ ∃ envelope,
        find w.redis.envelopes userId = some envelope ∧ r = .ok envelope.val) ∨
      (r = storedUser w userId ∧ (envelopes = w.redis.envelopes ∨
        ∃ envelope, storedUser w userId = .ok envelope.val ∧
          envelopes = set w.redis.envelopes userId envelope)))

lemma runs_xfetchUser :
    w.Runs ok (xfetchGetOrCompute deps userId (computeUser userId) ttl beta now randVal)
      (XfetchedUser w userId) := by
  have hserve : ∀ t raw, (∀ envelope, raw = some envelope →
      find w.redis.envelopes userId = some envelope) →
      w.Runs ok ((serveWarm deps userId t beta randVal raw).bind
        (orCompute userId (computeUser userId) ttl t)) (XfetchedUser w userId) := by
    intro t raw hraw
    refine runs_bind.mpr ((runs_serveWarm deps).mono ?_)
    rintro _ _ ⟨locks, rfl, rfl | ⟨envelope, hsome, rfl⟩⟩
    · refine (runs_computeAndStore (fun h => runs_computeUser userId h)).mono ?_
      rintro _ _ ⟨rfl, envelopes, locks', rfl, henv⟩
      exact ⟨envelopes, locks', rfl, .inr ⟨rfl, henv⟩⟩
    · exact ⟨_, locks, rfl, .inl ⟨rfl, envelope, hraw envelope hsome, rfl⟩⟩
  have htime : ∀ {Q : UserPost Time}, (∀ t, Q (.ok t) w) → w.Runs ok (timeOr now) Q := fun h => by
    cases now with
    | none => exact runs_outside.mpr fun _ _ => h _
    | some t => exact h t
  refine runs_bind.mpr (htime fun t => runs_bind.mpr (runs_handle.mpr ?_))
  refine runs_userRedis (hserve t _ fun _ h => h) fun _ => ⟨?_, ?_⟩ <;>
    exact hserve t none fun _ h => by cases h

lemma runs_getUserByIdXfetch (beta : Time) (now randVal : Option Time) :
    w.Runs ok (getUserByIdXfetch deps userId beta now randVal) (Xfetched deps w userId) := by
  refine runs_bind.mpr ((runs_bloomGuard deps userId).mono ?_)
  rintro _ w ⟨rfl, rfl | ⟨hb, hrej, rfl⟩⟩
  · refine runs_ite (fun hc => ?_) fun _ => ?_
    · refine runs_bind.mpr ((runs_xfetchUser deps userId).mono ?_)
      unfold XfetchedUser storedUser
      rintro _ _ ⟨envelopes, locks, rfl, ⟨rfl, envelope, he, rfl⟩ | ⟨rfl, henv⟩⟩
      · exact .warm hc envelope locks he
      · cases hr : find w.db.users.store userId with
        | none =>
          rw [hr] at henv
          rcases henv with rfl | ⟨envelope, hval, -⟩
          · exact .missing locks hr
          · cases hval
        | some r =>
          rw [hr] at henv
          rcases henv with rfl | ⟨envelope, hval, rfl⟩
          · exact .fresh hc r ⟨w.db.users.heap.read r, 0, 0⟩ _ locks hr rfl (.inl rfl)
          · exact .fresh hc r envelope _ locks hr (Except.ok.inj hval).symm (.inr rfl)
    · refine runs_bind.mpr (runs_repo.mpr fun _ _ => ?_)
      simp only [RepoCmd.exec, getById]
      cases hr : find w.db.users.store userId with
      | none => exact .missing w.redis.locks hr
      | some r => exact .uncached r hr
  · exact .rejected hb hrej

/-! ## Uniqueness checks -/

/-- What a view shows in `w`. -/
def UserView.seen (w : UserWorld) : UserView → UserEntity
  | .stored r => w.db.users.heap.read r
  | .copy user => user

lemma runs_read (view : UserView) {Q : UserPost UserEntity} (h : Q (.ok (view.seen w)) w) :
    w.Runs ok view.read Q := by
  cases view with
  | stored => exact runs_repo.mpr fun _ _ => h
  | copy => exact h

def NotTaken (w : UserWorld) (userId : Int) (wanted current : Option String)
    (lookup : String → Option Ref) : Prop :=
  ∀ x, wanted = some x → some x ≠ current → ∀ r, lookup x = some r →
    (w.db.users.heap.read r).id = userId

lemma runs_refuseTakenByOther (lookup : String → Option Ref) {userId : Int} {view : UserView}
    {Q : UserPost Unit}
    (hsearch : ∀ x {Q : UserPost (Option Ref)}, Q (.ok (lookup x)) w → w.Runs ok (search x) Q)
    (hok : NotTaken w userId wanted (current (view.seen w)) lookup → Q (.ok ()) w)
    (herr : ∀ m, Q (.error (.userAlreadyExists m)) w) :
    w.Runs ok (refuseTakenByOther userId wanted view current search message) Q := by
  unfold refuseTakenByOther
  cases wanted with
  | none => exact hok fun x hx => by cases hx
  | some x =>
    simp only [bind_eq, runs_bind]
    refine runs_read view ?_
    by_cases hx : some x = current (view.seen w)
    · simp only [hx, ne_eq, not_true_eq_false, if_false]
      refine hok fun y hy hne => ?_
      cases hy
      exact absurd hx hne
    · simp only [hx, ne_eq, not_false_eq_true, if_true, runs_bind]
      refine hsearch x ?_
      cases hl : lookup x with
      | none =>
        refine hok fun y hy _ r hr => ?_
        cases hy
        rw [hl] at hr
        cases hr
      | some =>
        refine fun o _ => runs_raiseIf (fun _ => herr _) fun hid => hok ?_
        intro y hy _ r' hr'
        cases hy
        rw [hl] at hr'
        cases hr'
        exact not_not.mp hid

/-- Both checks of an update have passed, against what `view` shows. -/
structure Checked (w : UserWorld) (userId : Int) (payload : UserUpdate) (view : UserView) :
    Prop where
  email : NotTaken w userId payload.changes.email (view.seen w).email w.db.users.getByEmail
  username :
    NotTaken w userId payload.changes.username (view.seen w).username w.db.users.getByUsername

lemma runs_refuseConflicts (view : UserView) :
    w.Runs ok (refuseConflicts userId payload view) fun r w' => w' = w ∧
      ((r = .ok () ∧ Checked w userId payload view) ∨ ∃ m, r = .error (.userAlreadyExists m)) := by
  unfold refuseConflicts
  simp only [bind_eq, runs_bind]
  refine runs_refuseTakenByOther w.db.users.getByEmail
    (fun x _ h => runs_repo.mpr fun _ _ => h) (fun hemail => ?_) fun m => ⟨rfl, .inr ⟨m, rfl⟩⟩
  refine runs_refuseTakenByOther w.db.users.getByUsername
    (fun x _ h => runs_repo.mpr fun _ _ => h) (fun husername => ?_) fun m => ⟨rfl, .inr ⟨m, rfl⟩⟩
  exact ⟨rfl, .inl ⟨rfl, hemail, husername⟩⟩

lemma runs_refuseTaken {find : UserProg (Option Ref)}
    (hfind : ∀ {Q : UserPost (Option Ref)}, Q (.ok found) w → w.Runs ok find Q) :
    w.Runs ok (refuseTaken find message) fun r w' => w' = w ∧
      ((r = .ok () ∧ found = none) ∨ (r = .error (.userAlreadyExists message) ∧ found ≠ none)) := by
  unfold refuseTaken
  simp only [bind_eq, runs_bind]
  refine hfind (runs_raiseIf (fun h => ?_) fun h => ?_)
  · exact ⟨rfl, .inr ⟨rfl, fun hn => by simp [hn] at h⟩⟩
  · exact ⟨rfl, .inl ⟨rfl, by simpa using h⟩⟩

def UserCreate.Free (payload : UserCreate) (s : UserRepository) : Prop :=
  s.getByEmail payload.email = none ∧ s.getByUsername payload.username.text = none

variable (payload : UserCreate)

lemma runs_refuseDuplicate : w.Runs ok (refuseDuplicate payload) fun r w' => w' = w ∧
      ((r = .ok () ∧ payload.Free w.db.users) ∨
        ∃ m, r = .error (.userAlreadyExists m) ∧ ¬ payload.Free w.db.users) := by
  unfold refuseDuplicate
  simp only [bind_eq, runs_bind]
  refine (runs_refuseTaken fun h => runs_repo.mpr fun _ _ => h).mono ?_
  rintro _ _ ⟨rfl, ⟨rfl, hemail⟩ | ⟨rfl, hemail⟩⟩
  · refine (runs_refuseTaken fun h => runs_repo.mpr fun _ _ => h).mono ?_
    rintro _ _ ⟨rfl, ⟨rfl, husername⟩ | ⟨rfl, husername⟩⟩
    · exact ⟨rfl, .inl ⟨rfl, hemail, husername⟩⟩
    · exact ⟨rfl, .inr ⟨_, rfl, fun h => husername h.2⟩⟩
  · exact ⟨rfl, .inr ⟨_, rfl, fun h => hemail h.1⟩⟩

/-! ## Updates -/

/-- The user `userId` is assigned `f` of itself, or nothing happens. -/
def Assigned (w : UserWorld) (userId : Int) (f : UserEntity → UserEntity) :
    Except UserError Ref → UserWorld → Prop
  | .ok r, w' => find w.db.users.store userId = some r ∧
      w' = { w with db.users := w.db.users.assign r (f (w.db.users.heap.read r)) }
  | .error _, w' => w' = w

lemma runs_update : w.Runs ok ((repo (.update userId c)).bind (orNotFound userId))
      (Assigned w userId c.apply) := by
  simp only [runs_bind, runs_repo, RepoCmd.exec, UserDb.onUsers, update, getById]
  intro o _
  cases hr : find w.db.users.store userId with
  | none => exact rfl
  | some => exact ⟨hr, rfl⟩

lemma runs_updateWithOptimisticLock (version : Nat) (payload : UserUpdate) :
    w.Runs ok (repo (.updateWithOptimisticLock userId version payload)) fun r w' =>
      Assigned w userId payload.assign r w' ∧
        ∀ r', r = .ok r' → (w.db.users.heap.read r').version = version := by
  simp only [runs_repo, RepoCmd.exec, UserDb.onUsers, updateWithOptimisticLock, getById]
  intro o _
  cases hr : find w.db.users.store userId with
  | none => exact ⟨rfl, fun _ h => by cases h⟩
  | some r =>
    by_cases hv : (w.db.users.heap.read r).version = version
    · simp only [hv, ne_eq, not_true_eq_false, if_false]
      refine ⟨⟨hr, rfl⟩, fun r' h => ?_⟩
      cases h
      exact hv
    · simp only [hv, ne_eq, not_false_eq_true, if_true]
      exact ⟨rfl, fun _ h => by cases h⟩

/-! ## The search index -/

def UserEntity.name? (user : UserEntity) : Option String := user.fullName.filter (· ≠ "")

def UserWorld.withTrie (w : UserWorld) (t : PrefixTrie UserPayload) : UserWorld :=
  { w with index.trie := t }

/-- The trie after `_index_user_in_trie`. -/
def indexed (t : PrefixTrie UserPayload) (username : String) (user : UserEntity) :
    PrefixTrie UserPayload :=
  let t := t.insert username (some user.payload) 2
  match user.name? with
  | none => t
  | some name => t.insert name (some user.payload) 1

def pruned (t : PrefixTrie UserPayload) (username : String) (old new : UserEntity) :
    PrefixTrie UserPayload :=
  let t := if old.username ≠ new.username then (t.delete username none).2 else t
  match old.name? with
  | none => t
  | some name => if old.fullName ≠ new.fullName then (t.delete name none).2 else t

def synced (t : PrefixTrie UserPayload) (oldName newName : String) (old new : UserEntity) :
    PrefixTrie UserPayload :=
  indexed (pruned t oldName old new) newName new

omit [PyCase] [Sha256] in
lemma name?_eq_none {user : UserEntity} (h : user.fullName = none ∨ user.fullName = some "") :
    user.name? = none := by
  rcases h with h | h <;> simp [UserEntity.name?, h]

omit [PyCase] [Sha256] in
lemma name?_eq_some {user : UserEntity} (h : ¬ (user.fullName = none ∨ user.fullName = some "")) :
    ∃ name, user.fullName = some name ∧ user.name? = some name := by
  cases hn : user.fullName with
  | none => simp [hn] at h
  | some name => exact ⟨name, rfl, by simp_all [UserEntity.name?, Option.filter]⟩

variable {user : UserEntity}

lemma runs_ifText {p : UserProg Unit} {Q : UserPost Unit} (hnone : user.name? = none → Q (.ok ()) w)
    (hsome : ∀ name, user.fullName = some name → user.name? = some name → w.Runs ok p Q) :
    w.Runs ok (ifText user.fullName p) Q := by
  unfold ifText
  split
  · next h => exact hnone (name?_eq_none h)
  · next h =>
    obtain ⟨name, hfull, hname⟩ := name?_eq_some h
    exact hsome name hfull hname

lemma runs_trieInsert (hk : key = some text) {payload : UserPayload} {Q : UserPost Unit}
    (h : Q (.ok ()) (w.withTrie (w.index.trie.insert text (some payload) score))) :
    w.Runs ok (index (.trieInsert key payload score)) Q := by
  subst hk
  exact runs_index.mpr fun _ _ => h

lemma runs_trieDelete (hk : key = some text) {Q : UserPost Unit}
    (h : Q (.ok ()) (w.withTrie (w.index.trie.delete text none).2)) :
    w.Runs ok (index (.trieDelete key)) Q := by
  subst hk
  exact runs_index.mpr fun _ _ => h

lemma runs_trieDelete_if [Decidable c] (hk : key = some text) {Q : UserPost Unit}
    (h : Q (.ok ()) (w.withTrie (if c then (w.index.trie.delete text none).2 else w.index.trie))) :
    w.Runs ok (if c then index (.trieDelete key) else pure ()) Q := by
  split
  · next hc =>
    rw [if_pos hc] at h
    exact runs_trieDelete hk h
  · next hc =>
    rw [if_neg hc] at h
    exact h

lemma runs_indexUserInTrie (hu : user.username = some username)
    {Q : UserPost Unit} (h : Q (.ok ()) (w.withTrie (indexed w.index.trie username user))) :
    w.Runs ok (indexUserInTrie user) Q := by
  unfold indexed at h
  refine runs_bind.mpr (runs_trieInsert hu (runs_ifText (fun hn => ?_) fun name hfull hn => ?_))
  · rw [hn] at h
    exact h
  · rw [hn] at h
    exact runs_trieInsert hfull h

lemma runs_syncTrie {view : UserView} (hold : (view.seen w).username = some old)
    (hnew : (w.db.users.heap.read updated).username = some new)
    {Q : UserPost Unit} (h : Q (.ok ()) (w.withTrie (synced w.index.trie old new (view.seen w)
      (w.db.users.heap.read updated)))) : w.Runs ok (syncTrie view updated) Q := by
  unfold synced pruned at h
  refine runs_bind.mpr (runs_read view (runs_bind.mpr (runs_repo.mpr fun o _ => ?_)))
  refine runs_bind.mpr (runs_trieDelete_if hold (runs_bind.mpr ?_))
  refine runs_ifText (fun hn => ?_) fun name hfull hn => ?_
  · rw [hn] at h
    exact runs_indexUserInTrie hnew h
  · rw [hn] at h
    exact runs_trieDelete_if hfull (runs_indexUserInTrie hnew h)

/-! ## New users -/

/-- The arguments of `create` in `register_user`. -/
def UserCreate.registered (payload : UserCreate) (hash : String) : UserCreateArgs :=
  { payload.args hash with permissions := some (if payload.role.value = "admin" then 63 else 3) }

/-- The user that `create` makes. -/
def UserWorld.newUser (w : UserWorld) (now : Time) (a : UserCreateArgs) : UserEntity :=
  UserRepository.newUser (w.db.users.currentId + 1) now a

/-- The index after `register_user`. -/
def UserWorld.registered (w : UserWorld) (deps : UserDeps) (now : Time) (a : UserCreateArgs) :
    UserIndex where
  trie := indexed w.index.trie a.username (w.newUser now a)
  bloom := if deps.bloom then w.index.bloom.add (.number (w.newUser now a).id) else w.index.bloom

lemma runs_readRef (hr : w.db.users.heap.read r = user) {k : UserEntity → UserProg α}
    (h : w.Runs ok (k user) Q) : w.Runs ok ((repo (.read r)).bind k) Q := by
  subst hr
  exact runs_bind.mpr (runs_repo.mpr fun _ _ => h)

lemma runs_create {k : Ref → UserEntity → UserProg α}
    (h : ∀ now, UserWorld.Runs ok { w with db.users := (w.db.users.create now a).2 }
      (k w.db.users.heap.size (w.newUser now a)) Q) :
    w.Runs ok ((repo (.create a)).bind fun r => (repo (.read r)).bind (k r)) Q := by
  refine runs_bind.mpr (runs_repo.mpr fun o _ => ?_)
  exact runs_readRef (Heap.read_alloc_self _) (h o.now)

lemma runs_addToBloom {Q : UserPost Unit}
    (h : Q (.ok ()) { w with index.bloom :=
      if deps.bloom then w.index.bloom.add (.number userId) else w.index.bloom }) :
    w.Runs ok (addToBloom deps userId) Q := by
  unfold addToBloom
  split
  · next hb =>
    rw [if_pos hb] at h
    exact runs_index.mpr fun _ _ => h
  · next hb =>
    rw [if_neg hb] at h
    exact h

lemma runs_registerUser {Q : UserPost UserView}
    (hrefused : ∀ m, ¬ payload.Free w.db.users → Q (.error (.userAlreadyExists m)) w)
    (hcreated : payload.Free w.db.users → ∀ now hash view, Q (.ok view) { w with
      db.users := (w.db.users.create now (payload.registered hash)).2
      index := w.registered deps now (payload.registered hash) }) :
    w.Runs ok (registerUser deps payload) Q := by
  refine runs_bind.mpr ((runs_refuseDuplicate payload).mono ?_)
  rintro _ w ⟨rfl, ⟨rfl, hfree⟩ | ⟨m, rfl, hnot⟩⟩
  · refine runs_bind.mpr (runs_outside.mpr fun o _ => runs_create fun now => ?_)
    refine runs_bind.mpr (runs_indexUserInTrie rfl (runs_bind.mpr (runs_addToBloom deps _ ?_)))
    exact runs_bind.mpr (runs_outside.mpr fun _ _ => hcreated hfree now o.hash _)
  · exact hrefused m hnot

/-! ### With a post -/

lemma runs_createBoth : w.Runs ok (createBoth payload title content uow) fun r w' =>
      (∃ e, r = .error e ∧ w' = w ∧ ¬ payload.Free w.db.users) ∨
        ∃ x now hash db, r = .ok x ∧ payload.Free w.db.users ∧
          db.users = (w.db.users.create now (payload.args hash)).2 ∧
          w' = UserWorld.withTrie { w with db := db } (indexed w.index.trie payload.username.text
            (w.newUser now (payload.args hash))) := by
  refine runs_bind.mpr ((runs_refuseDuplicate payload).mono ?_)
  rintro _ w ⟨rfl, ⟨rfl, hfree⟩ | ⟨m, rfl, hnot⟩⟩
  · refine runs_bind.mpr (runs_outside.mpr fun o _ => runs_create fun now => ?_)
    refine runs_bind.mpr (runs_repo.mpr fun _ _ => runs_bind.mpr (runs_repo.mpr fun _ _ => ?_))
    refine runs_readRef (Heap.read_alloc_self _) (runs_bind.mpr ?_)
    refine runs_indexUserInTrie rfl (.inr ⟨_, now, o.hash, _, rfl, hfree, ?_, rfl⟩)
    rfl
  · exact .inl ⟨_, rfl, rfl, hnot⟩

lemma runs_withUow {body : UserProg α} {P : UserPost α}
    (hbody : UserWorld.Runs ok { w with db := w.db.onUow uow aenter } body P)
    (hQ : ∀ r w', P r w' → Q r { w' with
      db := w'.db.onUow uow (aexit · (match r with
        | .ok _ => false
        | .error _ => true)) }) : w.Runs ok (withUow uow body) Q := by
  refine runs_bind.mpr (runs_repo.mpr fun _ _ => runs_bind.mpr (runs_attempt.mpr ?_))
  refine hbody.mono fun r w' hr => runs_bind.mpr (runs_repo.mpr fun _ _ => ?_)
  exact runs_ofExcept.mpr (hQ r w' hr)

lemma runs_createUserWithInitialPost (title content : String) (uow : Option Nat)
    {Q : UserPost (UserView × PostEntity)}
    (hrefused : ¬ payload.Free w.db.users ∨ uow.or deps.uow = none → ∀ e db,
      db.users = w.db.users → Q (.error e) { w with db := db })
    (hcreated : payload.Free w.db.users → uow.or deps.uow ≠ none → ∀ now hash r db,
      db.users = (w.db.users.create now (payload.args hash)).2 → Q (.ok r)
        (UserWorld.withTrie { w with db := db } (indexed w.index.trie payload.username.text
          (w.newUser now (payload.args hash))))) :
    w.Runs ok (createUserWithInitialPost deps payload title content uow) Q := by
  unfold createUserWithInitialPost
  cases hu : uow.or deps.uow with
  | none => exact hrefused (.inr hu) _ w.db rfl
  | some u =>
    refine runs_withUow (runs_createBoth payload) ?_
    rintro _ _ (⟨e, rfl, rfl, hnot⟩ | ⟨x, now, hash, db, rfl, hfree, hdb, rfl⟩)
    · refine hrefused (.inl hnot) e _ ?_
      simp [UserDb.onUow, aexit, rollback, aenter, Memory.restore, Memory.snapshot]
    · exact hcreated hfree (by simp [hu]) now hash x _ hdb

end Runs

def registerAnn : @UserStep asciiCase :=
  letI := asciiCase
  .call (.registerUser annCreate) fun _ => {}

def registeredAnn : UserEntity :=
  UserRepository.newUser 1 0 (@UserCreate.registered asciiCase annCreate "")

end CleanArch
