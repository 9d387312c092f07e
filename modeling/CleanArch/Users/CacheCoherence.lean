import CleanArch.Users.Reachable
import CleanArch.Users.Updates

/-!
# Cached users

`get_user_by_id` reads `cache:user:{id}` and `get_user_by_id_xfetch` reads `xfetch:user:{id}`; both
should return what the repository holds (`ReadsFresh`). In histories of calls while Redis works they
do, as long as the calls are `UserCall.CacheSafe`.
-/

namespace CleanArch

open Assoc Async Objects Option Steps
open UserRepository (entity?_of_find entity?_of_find_none)

/-! ## Mirrored users -/

section Mirrors

variable {w : UserWorld} {id : Int}

structure MirrorsAt (w : UserWorld) (id : Int) : Prop where
  cache : ∀ doc, find w.redis.cache id = some doc → w.db.users.entity? id = some doc
  envelope : ∀ e, find w.redis.envelopes id = some e → w.db.users.entity? id = some e.val
  named : ∀ user, w.db.users.entity? id = some user → user.email ≠ none ∧ user.username ≠ none

lemma MirrorsAt.congr (h : MirrorsAt w id) (husers : w'.db.users.entity? id = w.db.users.entity? id)
    (hcache : find w'.redis.cache id = find w.redis.cache id)
    (henv : find w'.redis.envelopes id = find w.redis.envelopes id) : MirrorsAt w' id where
  cache doc hdoc := husers ▸ h.cache doc (hcache ▸ hdoc)
  envelope e he := husers ▸ h.envelope e (henv ▸ he)
  named user hu := h.named user (husers ▸ hu)

lemma MirrorsAt.change (userId : Int) (h : ∀ id, MirrorsAt w id) (hat : MirrorsAt w' userId)
    (husers : ∀ id, id ≠ userId → w'.db.users.entity? id = w.db.users.entity? id)
    (hcache : ∀ id, id ≠ userId → find w'.redis.cache id = find w.redis.cache id)
    (henv : ∀ id, id ≠ userId → find w'.redis.envelopes id = find w.redis.envelopes id) :
    ∀ id, MirrorsAt w' id := by
  intro id
  by_cases hid : id = userId
  · rw [hid]
    exact hat
  · exact (h id).congr (husers id hid) (hcache id hid) (henv id hid)

lemma deserializeUser_of_named (h : user.email ≠ none ∧ user.username ≠ none) :
    deserializeUser user = user := by
  obtain ⟨email, hemail⟩ := ne_none_iff_exists'.mp h.1
  obtain ⟨username, husername⟩ := ne_none_iff_exists'.mp h.2
  simp only [deserializeUser, hemail, husername, getD_some]
  rw [← hemail, ← husername]

lemma MirrorsAt.expire (h : MirrorsAt w id) (e : UserExpiry) : MirrorsAt (e.exec w) id := by
  cases e with
  | lock => exact h.congr rfl rfl rfl
  | cache id' =>
    refine ⟨fun doc hdoc => h.cache doc ?_, h.envelope, h.named⟩
    by_cases hid : id = id'
    · have : find (erase w.redis.cache id') id = some doc := hdoc
      rw [hid, find_erase_self] at this
      cases this
    · rw [← find_erase_of_ne _ hid]
      exact hdoc
  | envelope id' =>
    refine ⟨h.cache, fun e he => h.envelope e ?_, h.named⟩
    by_cases hid : id = id'
    · have : find (erase w.redis.envelopes id') id = some e := he
      rw [hid, find_erase_self] at this
      cases this
    · rw [← find_erase_of_ne _ hid]
      exact he

lemma MirrorsAt.store (h : ∀ id, MirrorsAt w id) (hu : w.db.users.entity? userId = some user) :
    ∀ id, MirrorsAt { w with redis.cache := set w.redis.cache userId user } id := by
  refine MirrorsAt.change userId h ⟨?_, (h userId).envelope, (h userId).named⟩
    (fun _ _ => rfl) (fun id hid => find_set_of_ne _ hid) fun _ _ => rfl
  intro doc hdoc
  rw [find_set_self] at hdoc
  exact hdoc ▸ hu

lemma MirrorsAt.written (userId : Int) (h : ∀ id, MirrorsAt w id)
    (husers : ∀ id, id ≠ userId → w'.db.users.entity? id = w.db.users.entity? id)
    (hcache : w'.redis.cache = erase w.redis.cache userId ∨ ∃ user,
      w'.db.users.entity? userId = some user ∧ w'.redis.cache = set w.redis.cache userId user)
    (henv : w'.redis.envelopes = w.redis.envelopes)
    (hat : find w.redis.envelopes userId = none ∨
      w'.db.users.entity? userId = w.db.users.entity? userId)
    (hnamed : ∀ user, w'.db.users.entity? userId = some user →
      user.email ≠ none ∧ user.username ≠ none) : ∀ id, MirrorsAt w' id := by
  refine MirrorsAt.change userId h ⟨fun doc hdoc => ?_, fun e he => ?_, hnamed⟩ husers
    (fun id hid => ?_) fun id _ => congrArg (find · id) henv
  · rcases hcache with hcache | ⟨user, hu, hcache⟩
    · rw [hcache, find_erase_self] at hdoc
      cases hdoc
    · rw [hcache, find_set_self] at hdoc
      exact hdoc ▸ hu
  · rw [henv] at he
    rcases hat with hnone | hsame
    · rw [hnone] at he
      cases he
    · rw [hsame]
      exact (h userId).envelope e he
  · rcases hcache with hcache | ⟨user, hu, hcache⟩
    · rw [hcache, find_erase_of_ne _ hid]
    · rw [hcache, find_set_of_ne _ hid]

lemma MirrorsAt.created (hok : w.db.users.Ok) (h : ∀ id, MirrorsAt w id)
    (hdb : w'.db.users = (w.db.users.create now a).2) (hredis : w'.redis = w.redis) :
    ∀ id, MirrorsAt w' id := by
  have hnew : w.db.users.entity? (w.db.users.currentId + 1) = none := by
    by_contra hne
    obtain ⟨user, hu⟩ := ne_none_iff_exists'.mp hne
    have := hok.entity?_le hu
    omega
  refine MirrorsAt.change (w.db.users.currentId + 1) h ⟨fun doc hdoc => ?_, fun e he => ?_,
    fun user hu => ?_⟩ (fun id hid => ?_) (fun _ _ => by rw [hredis]) fun _ _ => by rw [hredis]
  · rw [hredis] at hdoc
    rw [(h _).cache doc hdoc] at hnew
    cases hnew
  · rw [hredis] at he
    rw [(h _).envelope e he] at hnew
    cases hnew
  · rw [hdb, hok.entity?_create, if_pos rfl] at hu
    cases hu
    exact ⟨some_ne_none _, some_ne_none _⟩
  · rw [hdb, hok.entity?_create, if_neg hid]

lemma named_apply (c : UserChanges) (h : user.email ≠ none ∧ user.username ≠ none) :
    (c.apply user).email ≠ none ∧ (c.apply user).username ≠ none := by
  simp_all [UserChanges.apply, or_eq_none_iff]

lemma MirrorsAt.updated (hok : w.db.users.Ok) (hr : find w.db.users.store userId = some r)
    {cache base : List (Int × UserEntity)}
    (hbase : ∀ id, MirrorsAt { w with redis.cache := base } id)
    (hcache : cache = erase base userId ∨ cache = set base userId new)
    (hat : new ≠ w.db.users.heap.read r → find w.redis.envelopes userId = none)
    (hnamed : new.email ≠ none ∧ new.username ≠ none) :
    ∀ id, MirrorsAt (w.updated r new t cache) id := by
  have hnew : (w.updated r new t cache).db.users.entity? userId = some new := by
    simp [UserWorld.updated, hok.entity?_assign hr]
  refine MirrorsAt.written userId hbase (fun id hid => ?_) ?_ rfl ?_ fun user hu => ?_
  · simp [UserWorld.updated, hok.entity?_assign hr, hid]
  · exact hcache.imp_right fun h => ⟨new, hnew, h⟩
  · by_cases hsame : new = w.db.users.heap.read r
    · exact .inr (hnew.trans ((congrArg some hsame).trans (entity?_of_find hr).symm))
    · exact .inl (hat hsame)
  · cases hnew.symm.trans hu
    exact hnamed

end Mirrors

/-! ## ReadsFresh reads -/

section Coherence

variable [PyCase] [Sha256] {deps : UserDeps} {w w' : UserWorld} {userId : Int}

/-- The stored user, or `UserNotFoundException` if there is none. -/
def AnswersStored (w : UserWorld) (userId : Int) (x : Except UserError UserView × UserWorld) :
    Prop :=
  match w.db.users.entity? userId with
  | none => x.1 = .error (.userNotFound userId)
  | some user => ∃ view, x.1 = .ok view ∧ view.seen x.2 = user

def ReadsFresh (deps : UserDeps) (w : UserWorld) : Prop :=
  ∀ userId o, (∀ n, Works (o n)) →
    AnswersStored w userId (w.run (getUserById deps userId) o) ∧
      ∀ beta now randVal, AnswersStored w userId
        (w.run (getUserByIdXfetch deps userId beta now randVal) o)

/-- Every read is fresh (`Coherent.readsFresh`), and stays so in `CacheSafe` steps. -/
structure Coherent (deps : UserDeps) (w : UserWorld) : Prop where
  ok : w.db.users.Ok
  known : Known deps w
  mirrors : deps.cache = true → ∀ id, MirrorsAt w id

omit [PyCase] in
lemma Known.entity?_of_rejected (h : Known deps w) (hb : deps.bloom = true)
    (hc : w.index.bloom.contains (.number userId) = false) : w.db.users.entity? userId = none := by
  by_contra hne
  rw [h hb userId hne] at hc
  cases hc

omit [PyCase] in
lemma Coherent.answersStored_got (h : Coherent deps w) (hgot : Got Works deps w userId x w') :
    AnswersStored w userId (x, w') := by
  unfold AnswersStored
  cases hgot with
  | rejected hb hc => rw [h.known.entity?_of_rejected hb hc]
  | missing hm hr => rw [entity?_of_find_none hr]
  | cached doc hc hdoc =>
    have hstored := (h.mirrors hc userId).cache doc hdoc
    rw [hstored]
    exact ⟨_, rfl, deserializeUser_of_named ((h.mirrors hc userId).named doc hstored)⟩
  | stored r hm hr =>
    rw [entity?_of_find hr]
    exact ⟨_, rfl, rfl⟩

omit [PyCase] in
lemma Coherent.answersStored_xfetched (h : Coherent deps w) (hx : Xfetched deps w userId x w') :
    AnswersStored w userId (x, w') := by
  unfold AnswersStored
  cases hx with
  | rejected hb hc => rw [h.known.entity?_of_rejected hb hc]
  | missing locks hr => rw [entity?_of_find_none hr]
  | warm hc e locks he =>
    have hstored := (h.mirrors hc userId).envelope e he
    rw [hstored]
    exact ⟨_, rfl, deserializeUser_of_named ((h.mirrors hc userId).named _ hstored)⟩
  | uncached r hr =>
    rw [entity?_of_find hr]
    exact ⟨_, rfl, rfl⟩
  | fresh hc r e envelopes locks hr =>
    have hstored := entity?_of_find hr
    rw [hstored]
    exact ⟨_, rfl, deserializeUser_of_named ((h.mirrors hc userId).named _ hstored)⟩

lemma Coherent.readsFresh (h : Coherent deps w) : ReadsFresh deps w := fun userId _ ho =>
  ⟨h.answersStored_got ((runs_getUserById deps userId).run ho), fun beta now randVal =>
    h.answersStored_xfetched ((runs_getUserByIdXfetch deps userId beta now randVal).run ho)⟩

/-! ## One call -/

omit [PyCase] [Sha256] in
lemma CacheAfter.eq (hc : deps.cache = true) (h : CacheAfter Works deps old new cache) :
    cache = new := by
  rcases h with ⟨-, h⟩ | ⟨-, h⟩
  · exact h
  · obtain ⟨o, ho, hf⟩ := h hc
    exact absurd ho hf

omit [PyCase] in
lemma MirrorsAt.got (h : ∀ id, MirrorsAt w id) (hgot : Got Works deps w userId x w') :
    ∀ id, MirrorsAt w' id := by
  obtain ⟨cache, rfl, rfl | ⟨r, hr, rfl⟩⟩ := hgot.world
  · exact h
  · exact MirrorsAt.store h (entity?_of_find hr)

omit [PyCase] in
lemma MirrorsAt.xfetched (h : ∀ id, MirrorsAt w id) (hx : Xfetched deps w userId x w') :
    ∀ id, MirrorsAt w' id := by
  cases hx with
  | fresh hc r e envelopes locks hr hval he =>
    rcases he with rfl | rfl
    · exact fun id => (h id).congr rfl rfl rfl
    · refine MirrorsAt.change userId h ⟨(h userId).cache, ?_, (h userId).named⟩
        (fun _ _ => rfl) (fun _ _ => rfl) fun id hid => find_set_of_ne _ hid
      intro e' he'
      rw [find_set_self] at he'
      cases he'
      exact hval ▸ entity?_of_find hr
  | _ => exact fun id => (h id).congr rfl rfl rfl

/-- A user who has an envelope is not changed by `f`. -/
def EnvelopeFree (w : UserWorld) (userId : Int) (f : UserEntity → UserEntity) : Prop :=
  ∀ user, w.db.users.entity? userId = some user → f user ≠ user →
    find w.redis.envelopes userId = none

def UserCall.CacheSafe (deps : UserDeps) (w : UserWorld) : UserCall → Prop
  | .updateUser userId payload | .updateUserWriteThrough userId payload =>
    EnvelopeFree w userId payload.changes.apply
  | .updateProfile userId payload => EnvelopeFree w userId payload.toUpdate.changes.apply
  | .updateUserOptimistic userId version payload => ∀ user,
      w.db.users.entity? userId = some user → user.version = version →
      find w.redis.envelopes userId = none ∧
        payload.email ≠ some none ∧ payload.username ≠ some none
  | .updateNid userId _ | .updateUserPermissions userId _ | .deleteUser userId =>
    find w.redis.envelopes userId = none
  | .authenticateUser username _ => ∀ r, w.db.users.login username = some r →
      deps.needsRehash (w.db.users.heap.read r).passwordHash = true →
      find w.redis.cache (w.db.users.heap.read r).id = none ∧
        find w.redis.envelopes (w.db.users.heap.read r).id = none
  | _ => True

omit [Sha256] in
lemma named_assign {payload : UserUpdate} (hemail : payload.email ≠ some none)
    (husername : payload.username ≠ some none) (h : user.email ≠ none ∧ user.username ≠ none) :
    (payload.assign user).email ≠ none ∧ (payload.assign user).username ≠ none := by
  constructor
  · cases he : payload.email with
    | none => simpa [UserUpdate.assign, he] using h.1
    | some => simp_all [UserUpdate.assign]
  · cases hu : payload.username with
    | none => simpa [UserUpdate.assign, hu] using h.2
    | some => simp_all [UserUpdate.assign]

abbrev Keeps (w : UserWorld) {α : Type} (p : UserProg α) : Prop :=
  w.Runs Works p fun _ w' => ∀ id, MirrorsAt w' id

section Calls

variable (hc : deps.cache = true) (hok : w.db.users.Ok) (h : ∀ id, MirrorsAt w id)

omit [PyCase] [Sha256] in
include h in
lemma named_read {r : Ref} (hr : find w.db.users.store userId = some r) :
    (w.db.users.heap.read r).email ≠ none ∧ (w.db.users.heap.read r).username ≠ none :=
  (h userId).named _ (entity?_of_find hr)

include h in
lemma keeps_getUserById : Keeps w (getUserById deps userId) :=
  (runs_getUserById deps userId).mono fun _ _ hgot => MirrorsAt.got h hgot

include h in
lemma keeps_getUserByIdXfetch (beta : Time) (now randVal : Option Time) :
    Keeps w (getUserByIdXfetch deps userId beta now randVal) :=
  (runs_getUserByIdXfetch deps userId beta now randVal).mono fun _ _ hx => MirrorsAt.xfetched h hx

include hok h in
lemma keeps_registerUser (payload : UserCreate) : Keeps w (registerUser deps payload) :=
  runs_registerUser deps payload (fun _ _ => h) fun _ _ _ _ => MirrorsAt.created hok h rfl rfl

include hok h in
lemma keeps_createUserWithInitialPost (payload : UserCreate) (title content : String)
    (uow : Option Nat) : Keeps w (createUserWithInitialPost deps payload title content uow) := by
  refine runs_createUserWithInitialPost deps payload title content uow
    (fun _ _ db hdb id => (h id).congr ?_ rfl rfl)
    fun _ _ _ _ _ db hdb => MirrorsAt.created hok h hdb rfl
  rw [hdb]

include hc hok h

lemma keeps_updateUser (payload : UserUpdate)
    (hfree : EnvelopeFree w userId payload.changes.apply) :
    Keeps w (updateUser deps userId payload) := by
  refine runs_updateUser ⟨hok, fun r hr _ => (named_apply _ (named_read h hr)).2,
    fun _ _ _ hgot => MirrorsAt.got h hgot, fun view w1 r t cache hgot hr _ _ _ hcache => ?_⟩
  have hbase := MirrorsAt.got h hgot
  obtain ⟨base, rfl, -⟩ := hgot.world
  exact MirrorsAt.updated hok hr hbase (.inl (hcache.eq hc)) (hfree _ (entity?_of_find hr))
    (named_apply _ (named_read h hr))

lemma keeps_updateUserWriteThrough (payload : UserUpdate)
    (hfree : EnvelopeFree w userId payload.changes.apply) :
    Keeps w (updateUserWriteThrough deps userId payload) := by
  refine runs_updateUserWriteThrough hok
    (fun r hr => (named_apply _ (named_read h hr)).2) (fun _ => h) fun r t cache hr _ _ hcache => ?_
  exact MirrorsAt.updated hok hr h (.inr (hcache.eq hc)) (hfree _ (entity?_of_find hr))
    (named_apply _ (named_read h hr))

lemma keeps_updateUserOptimistic (version : Nat) (payload : UserUpdate)
    (hsafe : UserCall.CacheSafe deps w (.updateUserOptimistic userId version payload)) :
    Keeps w (updateUserOptimistic deps userId version payload) := by
  have hassign : ∀ r, find w.db.users.store userId = some r →
      (w.db.users.heap.read r).version = version →
      (payload.assign (w.db.users.heap.read r)).email ≠ none ∧
        (payload.assign (w.db.users.heap.read r)).username ≠ none := fun r hr hv => by
    obtain ⟨-, hemail, husername⟩ := hsafe _ (entity?_of_find hr) hv
    exact named_assign hemail husername (named_read h hr)
  refine runs_updateUserOptimistic ⟨hok, fun r hr hv => (hassign r hr hv).2,
    fun _ _ _ hgot => MirrorsAt.got h hgot, fun view w1 r t cache hgot hr hv _ _ hcache => ?_⟩
  have hbase := MirrorsAt.got h hgot
  obtain ⟨base, rfl, -⟩ := hgot.world
  exact MirrorsAt.updated hok hr hbase (.inl (hcache.eq hc))
    (fun _ => (hsafe _ (entity?_of_find hr) hv).1) (hassign r hr hv)

lemma keeps_updateNid (nidNumber : String) (hfree : find w.redis.envelopes userId = none) :
    Keeps w (updateNid deps userId nidNumber) := by
  refine runs_updateNid nidNumber h fun r cache hr hcache => ?_
  have hentity := hok.entity?_updateNid userId (some nidNumber)
  have hnew : (w.db.users.updateNid userId (some nidNumber)).2.entity? userId =
      some ((w.db.users.updateNid userId (some nidNumber)).2.heap.read r) := by
    refine entity?_of_find ?_
    simp [UserRepository.updateNid, UserRepository.getById, hr]
  refine MirrorsAt.written userId h (fun id hid => (hentity id).trans (if_neg hid))
    (.inr ⟨_, hnew, hcache.eq hc⟩) rfl (.inl hfree) fun user hu => ?_
  have hu' := (hentity userId).symm.trans hu
  rw [if_pos rfl, entity?_of_find hr] at hu'
  cases hu'
  exact named_read h hr

lemma keeps_updateUserPermissions (permissions : Nat)
    (hfree : find w.redis.envelopes userId = none) :
    Keeps w (updateUserPermissions deps userId permissions) := by
  refine runs_updateUserPermissions (fun _ _ _ hgot => MirrorsAt.got h hgot)
    fun view x w1 cache hgot _ hcache => ?_
  have hentity := hok.entity?_updatePermissions userId permissions
  have hbase := MirrorsAt.got h hgot
  obtain ⟨base, rfl, -⟩ := hgot.world
  refine MirrorsAt.written userId hbase (fun id hid => (hentity id).trans (if_neg hid))
    (.inl (hcache.eq hc)) rfl (.inl hfree) fun user hu => ?_
  have hu' := (hentity userId).symm.trans hu
  rw [if_pos rfl] at hu'
  obtain ⟨old, hold, rfl⟩ := map_eq_some_iff.mp hu'
  exact (h userId).named old hold

omit hok in
lemma keeps_deleteUser (hfree : find w.redis.envelopes userId = none) :
    Keeps w (deleteUser deps userId) := by
  refine runs_deleteUser (fun r hr => (named_read h hr).2)
    (fun _ _ _ hgot => MirrorsAt.got h hgot) fun view w1 username cache hgot _ _ hcache => ?_
  have hentity := UserRepository.entity?_delete w.db.users userId
  have hbase := MirrorsAt.got h hgot
  obtain ⟨base, rfl, -⟩ := hgot.world
  refine MirrorsAt.written userId hbase (fun id hid => (hentity id).trans (if_neg hid))
    (.inl (hcache.eq hc)) rfl (.inl hfree) fun user hu => ?_
  have hu' := (hentity userId).symm.trans hu
  rw [if_pos rfl] at hu'
  cases hu'

omit hc in
lemma keeps_authenticateUser (username password : String)
    (hsafe : UserCall.CacheSafe deps w (.authenticateUser username password)) :
    Keeps w (authenticateUser deps username password) := by
  refine runs_authenticateUser hok (fun _ => h)
    fun id r hash hr hlogin hneeds => ?_
  obtain ⟨hcache, henv⟩ := hsafe r hlogin hneeds
  rw [hok.id_eq hr] at hcache henv
  -- there is nothing to evict
  have hevicted : w.redis.cache = erase w.redis.cache id :=
    (erase_of_absent (find_eq_none_iff.mp hcache)).symm
  exact MirrorsAt.updated hok hr h (.inl hevicted) (fun _ => henv) (named_read h hr)

end Calls

lemma UserCall.keeps (hc : deps.cache = true) (hok : w.db.users.Ok)
    (h : ∀ id, MirrorsAt w id) {call : UserCall} (hsafe : call.CacheSafe deps w) :
    Keeps w (call.prog deps) := by
  cases call with
  | registerUser payload => exact (keeps_registerUser hok h payload).discard
  | createUserWithInitialPost payload title content uow =>
    exact (keeps_createUserWithInitialPost hok h payload title content uow).discard
  | updateUser userId payload => exact (keeps_updateUser hc hok h payload hsafe).discard
  | updateUserWriteThrough userId payload =>
    exact (keeps_updateUserWriteThrough hc hok h payload hsafe).discard
  | updateUserOptimistic userId version payload =>
    exact (keeps_updateUserOptimistic hc hok h version payload hsafe).discard
  | updateProfile userId payload => exact (keeps_updateUser hc hok h payload.toUpdate hsafe).discard
  | updateNid userId nidNumber => exact (keeps_updateNid hc hok h nidNumber hsafe).discard
  | updateUserPermissions userId permissions =>
    exact (keeps_updateUserPermissions hc hok h permissions hsafe).discard
  | deleteUser => exact keeps_deleteUser hc h hsafe
  | authenticateUser username password =>
    exact (keeps_authenticateUser hok h username password hsafe).discard
  | getUserById => exact (keeps_getUserById h).discard
  | getUserByIdXfetch userId beta now randVal =>
    exact (keeps_getUserByIdXfetch h beta now randVal).discard

/-! ## Histories -/

/-- Redis works, and the step keeps the reads fresh. The user of
`create_user_with_initial_post` has to be in the Bloom filter. -/
def UserStep.CacheSafe (deps : UserDeps) (w : UserWorld) : UserStep → Prop
  | .call c o => (∀ n, Works (o n)) ∧ UserStep.FilterReady deps w (.call c o) ∧
      (deps.cache = true → c.CacheSafe deps w)
  | .expire _ => True

lemma Coherent.step (h : Coherent deps w) {step : UserStep} (hsafe : step.CacheSafe deps w) :
    Coherent deps (step.exec deps w) := by
  cases step with
  | expire e =>
    refine ⟨?_, ?_, fun hc id => (h.mirrors hc id).expire e⟩
    · cases e <;> exact h.ok
    · cases e <;> exact h.known
  | call c o =>
    obtain ⟨hworks, hready, hsafe⟩ := hsafe
    obtain ⟨hok, hknown⟩ := UserStep.known h.ok h.known (.call c o)
    refine ⟨hok, hknown.mpr hready, fun hc => ?_⟩
    exact (UserCall.keeps hc h.ok (h.mirrors hc) (hsafe hc)).run hworks

/-- In every history from a coherent state whose steps are all safe, every state answers both reads
with what the repository holds. -/
theorem readsFresh_of_cacheSafe (deps : UserDeps) (w : UserWorld) (hstart : Coherent deps w)
    (steps : List UserStep) (hsafe : Along (UserStep.exec deps) (UserStep.CacheSafe deps) w steps) :
    Always (UserStep.exec deps) (ReadsFresh deps) w steps := by
  have hcoherent : Always (UserStep.exec deps) (Coherent deps) w steps :=
    hsafe.invariant (fun _ _ h hsafe => h.step hsafe) hstart
  exact fun before hb => (hcoherent before hb).readsFresh

omit [PyCase] [Sha256] in
lemma not_answersStored (doc user : UserEntity) (hu : w.db.users.entity? userId = some user)
    (hx : x.1 = .ok (.copy doc)) (hne : doc ≠ user) : ¬ AnswersStored w userId x := by
  unfold AnswersStored
  rw [hu]
  rintro ⟨view, hview, hseen⟩
  cases hx.symm.trans hview
  exact hne hseen

end Coherence

def ageAnn : @UserStep asciiCase :=
  letI := asciiCase
  .call (.updateUser 1 { age := some (some 31) }) fun _ => {}

/-- An update of a user who has no `xfetch` key. -/
theorem readsFresh_of_cacheSafe_update :
    letI := asciiCase
    letI := zeroDigest
    (Coherent {} UserWorld.empty ∧
      Along (UserStep.exec {}) (UserStep.CacheSafe {}) UserWorld.empty [registerAnn, ageAnn]) ∧
      Always (UserStep.exec {}) (ReadsFresh {}) UserWorld.empty [registerAnn, ageAnn] :=
  letI := asciiCase
  letI := zeroDigest
  have hstart : Coherent {} UserWorld.empty :=
    ⟨UserRepository.ok_empty, fun _ _ h => absurd rfl h, fun _ _ =>
      ⟨fun _ h => (by cases h), fun _ h => (by cases h), fun _ h => (by cases h)⟩⟩
  have hsafe : Along (UserStep.exec {}) (UserStep.CacheSafe {}) UserWorld.empty
      [registerAnn, ageAnn] :=
    ⟨⟨fun _ => rfl, trivial, fun _ => trivial⟩,
      ⟨fun _ => rfl, trivial, fun _ _ _ _ => by decide +kernel⟩, trivial⟩
  ⟨⟨hstart, hsafe⟩, readsFresh_of_cacheSafe {} UserWorld.empty hstart _ hsafe⟩

/-- The world after a registration, a read of the user through `xfetch`, and an update. -/
def afterXfetchedUpdate : UserWorld :=
  letI := asciiCase
  letI := zeroDigest
  [registerAnn, .call (.getUserByIdXfetch 1 1 none none) fun _ => {}, ageAnn].foldl
    (UserStep.exec {}) .empty

def rehashing : UserDeps where
  needsRehash hash := hash = ""

/-- The world after a registration, a read of the user, and a login that replaces the hash. -/
def afterRehash : UserWorld :=
  letI := asciiCase
  letI := zeroDigest
  [registerAnn, .call (.getUserById 1) fun _ => {},
    .call (.authenticateUser "ann" "secret") fun _ => { hash := "new" }].foldl
    (UserStep.exec rehashing) .empty

/-- The old age is served after the update, and the old hash after the login. -/
theorem stale_reads :
    letI := asciiCase
    letI := zeroDigest
    ¬ ReadsFresh {} afterXfetchedUpdate ∧ ¬ ReadsFresh rehashing afterRehash := by
  let := asciiCase
  let := zeroDigest
  constructor
  · intro h
    refine not_answersStored registeredAnn { registeredAnn with age := some 31 } ?_ ?_ ?_
      ((h 1 (fun _ => {}) fun _ => rfl).2 1 none none)
    all_goals decide +kernel
  · intro h
    refine not_answersStored registeredAnn { registeredAnn with passwordHash := "new" } ?_ ?_ ?_
      (h 1 (fun _ => {}) fun _ => rfl).1
    all_goals decide +kernel

end CleanArch
