import CleanArch.Users.Runs

/-!
# What a call can request

The writes to the repository that a call of the service can request, whatever it is answered
(`UserCall.Writes`, `within_prog`). What such a write keeps, a call keeps
(`UserCall.invariant`), alone or among others.
-/

namespace CleanArch

open Async Objects Prog

section Requests

variable [PyCase]

def RepoCmd.reads : RepoCmd → Bool
  | .getById _ | .getByEmail _ | .getByUsername _ | .read _ => true
  | _ => false

def RepoCmd.ofUow : RepoCmd → Bool
  | .createPost .. | .aenter _ | .commit _ | .aexit .. => true
  | _ => false

def UserCall.Writes (call : UserCall) (c : RepoCmd) : Prop :=
  match call with
  | .registerUser payload => ∃ hash, c = .create (payload.registered hash)
  | .createUserWithInitialPost payload _ _ _ =>
    (∃ hash, c = .create (payload.args hash)) ∨ c.ofUow = true
  | .updateUser userId payload | .updateUserWriteThrough userId payload =>
    c = .update userId payload.changes
  | .updateProfile userId payload => c = .update userId payload.toUpdate.changes
  | .updateUserOptimistic userId version payload =>
    c = .updateWithOptimisticLock userId version payload
  | .updateNid userId nidNumber => c = .updateNid userId nidNumber
  | .updateUserPermissions userId permissions => c = .updatePermissions userId permissions
  | .deleteUser userId => c = .delete userId
  | .authenticateUser _ _ =>
    (∃ userId hash, c = .update userId { passwordHash := some hash }) ∨
      ∃ r hash, c = .setPasswordHash r hash
  | .getUserById _ | .getUserByIdXfetch .. => False

def UserCall.registers : UserCall → Bool
  | .registerUser _ => true
  | _ => false

def UserCall.May (call : UserCall) : UserCmd → Prop
  | .repo c => c.reads = true ∨ call.Writes c
  | .index (.bloomAdd _) => call.registers = true
  | _ => True

structure Basic (okC : UserCmd → Prop) : Prop where
  repo : ∀ c : RepoCmd, c.reads = true → okC (.repo c)
  trieInsert : ∀ key payload score, okC (.index (.trieInsert key payload score))
  trieDelete : ∀ key, okC (.index (.trieDelete key))
  bloomContains : ∀ id, okC (.index (.bloomContains id))
  redis : ∀ c, okC (.redis c)
  outside : ∀ c, okC (.outside c)

lemma UserCall.basic (call : UserCall) : Basic call.May where
  repo _ hc := .inl hc
  trieInsert _ _ _ := trivial
  trieDelete _ := trivial
  bloomContains _ := trivial
  redis _ := trivial
  outside _ := trivial

section Parts

variable {okC : UserCmd → Prop}

lemma within_orNotFound (userId : Int) (r : Option Ref) : (orNotFound userId r).Only okC := by
  cases r <;> trivial

lemma within_ifText (hp : p.Only okC) : (ifText text p).Only okC :=
  within_ite (fun _ => trivial) fun _ => hp

lemma within_tolerate (hp : p.Only okC) : (tolerate p).Only okC :=
  within_handle hp fun _ _ => trivial

variable (hb : Basic okC)

include hb

lemma within_read (view : UserView) : view.read.Only okC := by
  cases view with
  | stored => exact within_call (hb.repo _ rfl)
  | copy => trivial

lemma within_indexUserInTrie (user : UserEntity) : (indexUserInTrie user).Only okC :=
  within_call_bind (hb.trieInsert _ _ _) fun _ =>
    within_ifText (within_call (hb.trieInsert _ _ _))

lemma within_syncTrie (view : UserView) (r : Ref) : (syncTrie view r).Only okC := by
  refine within_bind (within_read hb view) fun old => ?_
  refine within_call_bind (hb.repo _ rfl) fun new => ?_
  have hdelete : ∀ (c : Prop) [Decidable c] key, (if c then index (.trieDelete key) else
      pure ()).Only okC := fun c _ key =>
    within_ite (fun _ => within_call (hb.trieDelete key)) fun _ => trivial
  refine within_bind (hdelete _ _) fun _ => within_bind (within_ifText (hdelete _ _)) fun _ => ?_
  exact within_indexUserInTrie hb new

variable (deps : UserDeps)

lemma within_cachedUser (userId : Int) : (cachedUser deps userId).Only okC := by
  refine within_ite (fun _ => within_handle (within_call_bind (hb.redis _) ?_)
    fun _ _ => trivial) fun _ => trivial
  intro doc
  cases doc <;> exact within_call_bind (hb.outside _) fun _ => trivial

lemma within_storeInCache (userId : Int) (r : Ref) : (storeInCache deps userId r).Only okC :=
  within_ite (fun _ => within_tolerate (within_call_bind (hb.repo _ rfl) fun _ =>
    within_call (hb.redis _))) fun _ => trivial

lemma within_evict (userId : Int) : (evict deps userId).Only okC :=
  within_ite (fun _ => within_tolerate (within_call (hb.redis _))) fun _ => trivial

lemma within_bloomGuard (userId : Int) : (bloomGuard deps userId).Only okC :=
  within_ite (fun _ => within_call_bind (hb.bloomContains _) fun _ =>
    within_ite (fun _ => trivial) fun _ => trivial) fun _ => trivial

omit hb in
lemma within_found {α : Type} (userId : Int) {k : Ref → UserProg α}
    {find : UserProg (Option Ref)} (hfind : find.Only okC)
    (hk : ∀ r, (k r).Only okC) :
    (find.bind fun r => (orNotFound userId r).bind k).Only okC :=
  within_bind hfind fun r => within_bind (within_orNotFound userId r) hk

lemma within_getUserById (userId : Int) : (getUserById deps userId).Only okC := by
  refine within_bind (within_bloomGuard hb deps userId) fun _ => ?_
  refine within_bind (within_cachedUser hb deps userId) fun user => ?_
  cases user with
  | some => trivial
  | none =>
    exact within_found userId (within_call (hb.repo _ rfl)) fun r =>
      within_bind (within_storeInCache hb deps userId r) fun _ => trivial

lemma within_serveWarm (key : Int) (now beta : Time) (randVal : Option Time)
    (envelope : Option (XFetchEnvelope Time UserEntity)) :
    (serveWarm deps key now beta randVal envelope).Only okC := by
  cases envelope with
  | none => exact within_call_bind (hb.outside _) fun _ => trivial
  | some =>
    refine within_call_bind (hb.outside _) fun fresh => ?_
    refine within_ite (fun _ => ?_) fun _ => ?_
    · refine within_bind (within_handle (within_call (hb.redis _)) fun _ _ => trivial) fun _ => ?_
      exact within_ite (fun _ => within_call_bind (hb.outside _) fun _ => trivial)
        fun _ => within_call_bind (hb.outside _) fun _ => trivial
    · exact within_call_bind (hb.outside _) fun _ => trivial

lemma within_computeAndStore (hc : compute.Only okC) (key : Int) (ttl now : Time) :
    (computeAndStore key compute ttl now).Only okC := by
  have hensure : (Prog.ensure compute (tolerate (userRedis (.deleteLock key)))).Within okC
      fun _ => True := by
    refine within_bind (within_attempt hc) fun r => ?_
    refine within_bind (within_tolerate (within_call (hb.redis _))) fun _ => ?_
    cases r <;> trivial
  refine within_call_bind (hb.outside _) fun _ => within_bind hensure fun _ => ?_
  refine within_call_bind (hb.outside _) fun _ => ?_
  exact within_bind (within_tolerate (within_call (hb.redis _))) fun _ => trivial

lemma within_xfetchGetOrCompute (hc : compute.Only okC) (key : Int) (ttl beta : Time)
    (now : Option Time) :
    (xfetchGetOrCompute deps key compute ttl beta now randVal).Only okC := by
  have hnow : (timeOr now).Only okC := by
    cases now with
    | none => exact within_call (hb.outside _)
    | some => trivial
  refine within_bind hnow fun currentTime => ?_
  refine within_bind (within_handle (within_call (hb.redis _)) fun _ _ => trivial) fun raw => ?_
  refine within_bind (within_serveWarm hb deps key currentTime beta randVal raw) fun served => ?_
  cases served with
  | some => trivial
  | none => exact within_computeAndStore hb hc key ttl currentTime

lemma within_getUserByIdXfetch (userId : Int) (beta : Time) (now randVal : Option Time) :
    (getUserByIdXfetch deps userId beta now randVal).Only okC := by
  have hget : (repo (.getById userId)).Only okC := within_call (hb.repo _ rfl)
  refine within_bind (within_bloomGuard hb deps userId) fun _ => ?_
  refine within_ite (fun _ => ?_) fun _ => ?_
  · refine within_bind (within_xfetchGetOrCompute hb deps ?_ _ _ _ _) fun _ => trivial
    exact within_found userId hget fun r => within_call (hb.repo _ rfl)
  · exact within_found userId hget fun _ => trivial

variable (payload : UserCreate)

lemma within_refuseDuplicate : (refuseDuplicate payload).Only okC := by
  refine within_bind ?_ fun _ => ?_ <;>
    exact within_call_bind (hb.repo _ rfl) fun _ =>
      within_ite (fun _ => trivial) fun _ => trivial

lemma within_refuseTakenByOther {view : UserView} (hfind : ∀ x, (find x).Only okC) :
    (refuseTakenByOther userId wanted view current find message).Only okC := by
  cases wanted with
  | none => trivial
  | some wanted =>
    refine within_bind (within_read hb view) fun _ => within_ite (fun _ => ?_) fun _ => trivial
    refine within_bind (hfind wanted) fun r => ?_
    cases r with
    | none => trivial
    | some =>
      exact within_call_bind (hb.repo _ rfl) fun _ =>
        within_ite (fun _ => trivial) fun _ => trivial

lemma within_refuseConflicts (userId : Int) (payload : UserUpdate) (view : UserView) :
    (refuseConflicts userId payload view).Only okC :=
  within_bind (within_refuseTakenByOther hb fun _ => within_call (hb.repo _ rfl)) fun _ =>
    within_refuseTakenByOther hb fun _ => within_call (hb.repo _ rfl)

lemma within_updateUser (payload : UserUpdate) (hw : okC (.repo (.update userId payload.changes))) :
    (updateUser deps userId payload).Only okC := by
  refine within_bind (within_getUserById hb deps userId) fun view => ?_
  refine within_bind (within_refuseConflicts hb userId payload view) fun _ => ?_
  refine within_found userId (within_call hw) fun r => ?_
  refine within_bind (within_syncTrie hb view r) fun _ => ?_
  exact within_bind (within_evict hb deps userId) fun _ => trivial

lemma within_updateUserWriteThrough (payload : UserUpdate)
    (hw : okC (.repo (.update userId payload.changes))) :
    (updateUserWriteThrough deps userId payload).Only okC := by
  refine within_found userId (within_call (hb.repo _ rfl)) fun user => ?_
  refine within_bind (within_refuseConflicts hb userId payload _) fun _ => ?_
  refine within_found userId (within_call hw) fun r => ?_
  refine within_bind (within_syncTrie hb _ r) fun _ => ?_
  exact within_bind (within_storeInCache hb deps userId r) fun _ => trivial

lemma within_updateUserOptimistic (userId : Int) (payload : UserUpdate)
    (hw : okC (.repo (.updateWithOptimisticLock userId version payload))) :
    (updateUserOptimistic deps userId version payload).Only okC := by
  refine within_bind (within_getUserById hb deps userId) fun view => ?_
  refine within_bind (within_refuseConflicts hb userId payload view) fun _ => ?_
  refine within_call_bind hw fun r => within_bind (within_syncTrie hb view r) fun _ => ?_
  exact within_bind (within_evict hb deps userId) fun _ => trivial

lemma within_updateNid (userId : Int) (nidNumber : String)
    (hw : okC (.repo (.updateNid userId nidNumber))) :
    (updateNid deps userId nidNumber).Only okC := by
  refine within_found userId (within_call (hb.repo _ rfl)) fun _ => ?_
  refine within_found userId (within_call hw) fun r => ?_
  exact within_bind (within_storeInCache hb deps userId r) fun _ => trivial

lemma within_updateUserPermissions (userId : Int) (permissions : Nat)
    (hw : okC (.repo (.updatePermissions userId permissions))) :
    (updateUserPermissions deps userId permissions).Only okC := by
  refine within_bind (within_getUserById hb deps userId) fun _ => ?_
  refine within_found userId (within_call hw) fun r => ?_
  exact within_bind (within_evict hb deps userId) fun _ => trivial

lemma within_deleteUser (userId : Int) (hw : okC (.repo (.delete userId))) :
    (deleteUser deps userId).Only okC := by
  refine within_bind (within_getUserById hb deps userId) fun view => ?_
  refine within_call_bind hw fun _ => ?_
  refine within_bind (within_ite (fun _ => trivial) fun _ => trivial) fun _ => ?_
  refine within_bind (within_read hb view) fun user => ?_
  refine within_call_bind (hb.trieDelete _) fun _ => ?_
  refine within_bind (within_ifText (within_call (hb.trieDelete _))) fun _ => ?_
  exact within_evict hb deps userId

lemma within_registerUser (hw : ∀ hash, okC (.repo (.create (payload.registered hash))))
    (hbloom : ∀ id, okC (.index (.bloomAdd id))) :
    (registerUser deps payload).Only okC := by
  refine within_bind (within_refuseDuplicate hb payload) fun _ => ?_
  refine within_call_bind (hb.outside _) fun hash => ?_
  refine within_call_bind (hw hash) fun r => ?_
  refine within_call_bind (hb.repo _ rfl) fun user => ?_
  refine within_bind (within_indexUserInTrie hb user) fun _ => ?_
  refine within_bind (within_ite (fun _ => within_call (hbloom _)) fun _ => trivial) fun _ => ?_
  exact within_call_bind (hb.outside _) fun _ => trivial

lemma within_createUserWithInitialPost (title content : String) (uow : Option Nat)
    (hw : ∀ hash, okC (.repo (.create (payload.args hash))))
    (huow : ∀ c : RepoCmd, c.ofUow = true → okC (.repo c)) :
    (createUserWithInitialPost deps payload title content uow).Only okC := by
  unfold createUserWithInitialPost
  split
  · trivial
  · next u _ =>
    have hbody : (createBoth payload title content u).Only okC := by
      refine within_bind (within_refuseDuplicate hb payload) fun _ => ?_
      refine within_call_bind (hb.outside _) fun hash => ?_
      refine within_call_bind (hw hash) fun r => ?_
      refine within_call_bind (hb.repo _ rfl) fun user => ?_
      refine within_call_bind (huow _ rfl) fun _ => ?_
      refine within_call_bind (huow _ rfl) fun _ => ?_
      refine within_call_bind (hb.repo _ rfl) fun user => ?_
      exact within_bind (within_indexUserInTrie hb user) fun _ => trivial
    refine within_call_bind (huow _ rfl) fun _ => ?_
    refine within_bind (within_attempt hbody) fun r => ?_
    refine within_call_bind (huow _ rfl) fun _ => ?_
    cases r <;> trivial

lemma within_authenticateUser (deps : UserDeps) (username : String)
    (hw : ∀ id hash, okC (.repo (.update id { passwordHash := some hash })))
    (hset : ∀ r hash, okC (.repo (.setPasswordHash r hash))) :
    (authenticateUser deps username password).Only okC := by
  have hfind : (findLogin username).Only okC := by
    refine within_call_bind (hb.repo _ rfl) fun r => ?_
    cases r with
    | some => trivial
    | none => exact within_call (hb.repo _ rfl)
  have hrehash : ∀ user, (rehash user password).Only okC := fun user => by
    refine within_call_bind (hb.outside _) fun hash => ?_
    refine within_call_bind (hb.repo _ rfl) fun seen => ?_
    refine within_call_bind (hw _ _) fun r => ?_
    cases r with
    | some => trivial
    | none => exact within_call_bind (hset _ _) fun _ => trivial
  refine within_bind hfind fun user => ?_
  cases user with
  | none => trivial
  | some user =>
    refine within_call_bind (hb.repo _ rfl) fun _ => ?_
    refine within_call_bind (hb.outside _) fun _ => ?_
    refine within_ite (fun _ => ?_) fun _ => trivial
    refine within_call_bind (hb.repo _ rfl) fun _ => ?_
    refine within_ite (fun _ => ?_) fun _ => trivial
    exact within_bind (hrehash user) fun _ => trivial

end Parts

lemma within_prog (deps : UserDeps) (call : UserCall) :
    (call.prog deps).Within call.May fun _ => True := by
  have hb := call.basic
  cases call with
  | registerUser payload =>
    refine within_bind (within_registerUser hb deps payload (fun hash => ?_) fun _ => rfl)
      fun _ => trivial
    exact .inr ⟨hash, rfl⟩
  | createUserWithInitialPost payload title content uow =>
    refine within_bind (within_createUserWithInitialPost hb deps payload title content uow
      (fun hash => ?_) fun c hc => ?_) fun _ => trivial
    · exact .inr (.inl ⟨hash, rfl⟩)
    · exact .inr (.inr hc)
  | updateUser userId payload =>
    exact within_bind (within_updateUser hb deps payload (.inr rfl)) fun _ => trivial
  | updateUserWriteThrough userId payload =>
    exact within_bind (within_updateUserWriteThrough hb deps payload (.inr rfl))
      fun _ => trivial
  | updateUserOptimistic userId version payload =>
    exact within_bind (within_updateUserOptimistic hb deps userId payload (.inr rfl))
      fun _ => trivial
  | updateProfile userId payload =>
    exact within_bind (within_updateUser hb deps payload.toUpdate (.inr rfl))
      fun _ => trivial
  | updateNid userId nidNumber =>
    exact within_bind (within_updateNid hb deps userId nidNumber (.inr rfl)) fun _ => trivial
  | updateUserPermissions userId permissions =>
    exact within_bind (within_updateUserPermissions hb deps userId permissions (.inr rfl))
      fun _ => trivial
  | deleteUser userId => exact within_deleteUser hb deps userId (.inr rfl)
  | authenticateUser username password =>
    refine within_bind (within_authenticateUser hb deps username (fun id hash => ?_)
      fun r hash => ?_) fun _ => trivial
    · exact .inr (.inl ⟨id, hash, rfl⟩)
    · exact .inr (.inr ⟨r, hash, rfl⟩)
  | getUserById userId =>
    exact within_bind (within_getUserById hb deps userId) fun _ => trivial
  | getUserByIdXfetch userId beta now randVal =>
    exact within_bind (within_getUserByIdXfetch hb deps userId beta now randVal) fun _ => trivial

variable [Sha256]

lemma UserCall.invariant (deps : UserDeps) (call : UserCall) {F : UserWorld → Prop}
    (hstep : ∀ c o w, call.May c → F w → F (c.exec o w).2) (hw : F w) (o : Nat → UserAnswer) :
    F (w.run (call.prog deps) o).2 := by
  have hruns : w.Runs (fun _ => True) (call.prog deps) fun _ w => F w :=
    Machine.ends_within (M := userMachine) (F := fun _ w => F w)
      (fun c o _ w hc hF => ⟨hstep c o w hc hF, fun _ _ => trivial⟩) (within_prog deps call) hw
  exact hruns.run_any o

end Requests

end CleanArch
