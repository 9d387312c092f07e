import CleanArch.Users.Reachable
import CleanArch.Users.Router

/-!
# No privilege escalation

A user is privileged with the role `admin`, or with the `ADMIN` bit. The permission mask is behind
`PermissionGuard(ADMIN)`. But registration is open to everybody, and so is the optimistic update; an
owner may update their own user. All of these take the role from the payload, and `admin` is one.
-/

namespace CleanArch

open Assoc Async Objects Option Prog SqlWorld Steps UserBackend UserRepository UserRole

/-- Role `admin`, or the `ADMIN` bit. -/
def UserEntity.Privileged (user : UserEntity) : Prop :=
  user.role = admin.value ∨ hasPermission user.permissions Permission.admin.value = true

def AuthenticatedUser.Privileged (user : AuthenticatedUser) : Prop :=
  user.role = admin.value ∨ hasPermission user.permissions Permission.admin.value = true

instance (user : UserEntity) : Decidable user.Privileged := inferInstanceAs (Decidable (_ ∨ _))

instance (user : AuthenticatedUser) : Decidable user.Privileged :=
  inferInstanceAs (Decidable (_ ∨ _))

/-- `f` promotes no user. -/
def NoPromotion (f : UserEntity → UserEntity) : Prop :=
  ∀ user, ¬ user.Privileged → ¬ (f user).Privileged

def UserBackend.Unprivileged (b : UserBackend) (w : b.World) : Prop :=
  ∀ id user, b.stored? w id = some user → ¬ user.Privileged

/-! ## Payloads -/

section Payloads

variable [PyCase]

/-- The payload does not ask for the role `admin`. -/
def UserEndpoint.AsksNoAdmin : UserEndpoint → Prop
  | .createUser payload | .createUserWithInitialPost payload _ _ => payload.role ≠ .admin
  | .updateUser _ payload | .updateUserWriteThrough _ payload
  | .updateUserOptimistic _ _ payload => payload.role ≠ some (some .admin)
  | _ => True

omit [PyCase] in
lemma UserRole.value_ne_admin {role : UserRole} (h : role ≠ .admin) : role.value ≠ admin.value := by
  cases role with
  | admin => exact absurd rfl h
  | user | enterprise => decide

omit [PyCase] in
lemma not_privileged_newUser (hrole : a.role ≠ admin.value)
    (hperms : ∀ p, a.permissions = some p → hasPermission p Permission.admin.value = false)
    (id : Int) : ¬ (newUser id now a).Privileged := by
  rintro (h | h)
  · exact hrole h
  · revert h
    simp only [newUser]
    cases hp : a.permissions with
    | some p => simp [hperms p hp]
    | none =>
      have hne : a.role ≠ "admin" := hrole
      simp only [getD_none, defaultPermissionsOf, hne, if_false]
      split_ifs <;> decide

lemma not_privileged_registered {payload : UserCreate} (h : payload.role ≠ .admin)
    (hash : String) (id : Int) (now : Time) :
    ¬ (newUser id now (payload.registered hash)).Privileged := by
  refine not_privileged_newUser (value_ne_admin h) (fun p hp => ?_) id
  have hne : payload.role.value ≠ "admin" := value_ne_admin h
  simp only [UserCreate.registered, hne, if_false, Option.some.injEq] at hp
  subst hp
  decide

lemma not_privileged_args (payload : UserCreate) (h : payload.role ≠ .admin) (hash : String)
    (id : Int) (now : Time) :
    ¬ (newUser id now (payload.args hash)).Privileged :=
  not_privileged_newUser (value_ne_admin h) (fun p hp => by cases hp) id

omit [PyCase] in
lemma noPromotion_apply {c : UserChanges} (hc : c.role ≠ some admin.value) :
    NoPromotion c.apply := by
  rintro user h (hrole | hperms)
  · cases hr : c.role with
    | none =>
      simp only [UserChanges.apply, hr, getD_none] at hrole
      exact h (.inl hrole)
    | some =>
      simp only [UserChanges.apply, hr, getD_some] at hrole
      exact hc (by rw [hr, hrole])
  · exact h (.inr hperms)

lemma UserUpdate.role_changes {payload : UserUpdate} (h : payload.role ≠ some (some .admin)) :
    payload.changes.role ≠ some admin.value := by
  intro hrole
  obtain ⟨role, hr, hv⟩ := map_eq_some_iff.mp hrole
  have hadmin : role = .admin := by
    by_contra hne
    exact value_ne_admin hne hv
  rw [hadmin] at hr
  exact h (join_eq_some_iff.mp hr)

lemma noPromotion_assign {payload : UserUpdate} (hp : payload.role ≠ some (some .admin)) :
    NoPromotion payload.assign := by
  rintro user h (hrole | hperms)
  · simp only [UserUpdate.assign] at hrole
    rcases hr : payload.role with - | - | role
    · exact h (.inl (by simpa [hr] using hrole))
    · simp [hr, value] at hrole
    · have hne : role ≠ .admin := fun hadmin => hp (by rw [hr, hadmin])
      exact value_ne_admin hne (by simpa [hr] using hrole)
  · exact h (.inr hperms)

omit [PyCase] in
lemma noPromotion_of_permissions (hrole : ∀ user, (f user).role = user.role)
    (h : ∀ user, hasPermission (f user).permissions Permission.admin.value = false) :
    NoPromotion f := by
  rintro user hu (hadmin | hperms)
  · exact hu (.inl ((hrole user).symm.trans hadmin))
  · exact absurd ((h user).symm.trans hperms) Bool.false_ne_true

/-! ## Writes -/

def RepoCmd.Harmless : RepoCmd → Prop
  | .create a => ∀ id now, ¬ (newUser id now a).Privileged
  | .update _ c => NoPromotion c.apply
  | .updatePermissions _ permissions => hasPermission permissions Permission.admin.value = false
  | .updateWithOptimisticLock _ _ data => NoPromotion data.assign
  | _ => True

def UserCmd.Harmless : UserCmd → Prop
  | .repo c => c.Harmless
  | _ => True

/-- The call neither asks for the role `admin` nor sets permissions. -/
def UserCall.Modest : UserCall → Prop
  | .registerUser payload | .createUserWithInitialPost payload _ _ _ => payload.role ≠ .admin
  | .updateUser _ payload | .updateUserWriteThrough _ payload
  | .updateUserOptimistic _ _ payload => payload.role ≠ some (some .admin)
  | .updateUserPermissions .. => False
  | _ => True

lemma RepoCmd.harmless_of_reads {c : RepoCmd} (h : c.reads = true) : c.Harmless := by
  cases c <;> trivial

lemma RepoCmd.harmless_of_ofUow {c : RepoCmd} (h : c.ofUow = true) : c.Harmless := by
  cases c <;> trivial

lemma UserCall.harmless_of_may {call : UserCall} (hmodest : call.Modest) (h : call.May c) :
    c.Harmless := by
  cases c with
  | index | redis | outside => trivial
  | repo =>
    rcases h with hreads | hwrites
    · exact RepoCmd.harmless_of_reads hreads
    · cases call with
      | registerUser =>
        obtain ⟨hash, rfl⟩ := hwrites
        exact not_privileged_registered hmodest hash
      | createUserWithInitialPost payload =>
        rcases hwrites with ⟨hash, rfl⟩ | huow
        · exact not_privileged_args payload hmodest hash
        · exact RepoCmd.harmless_of_ofUow huow
      | updateUser | updateUserWriteThrough =>
        subst hwrites
        exact noPromotion_apply (UserUpdate.role_changes hmodest)
      | updateProfile =>
        subst hwrites
        exact noPromotion_apply (UserUpdate.role_changes (some_ne_none _).symm)
      | updateUserOptimistic =>
        subst hwrites
        exact noPromotion_assign hmodest
      | updateUserPermissions => cases hmodest
      | authenticateUser =>
        rcases hwrites with ⟨userId, hash, rfl⟩ | ⟨r, hash, rfl⟩
        · exact noPromotion_apply (some_ne_none _).symm
        · trivial
      | updateNid | deleteUser =>
        subst hwrites
        trivial
      | getUserById | getUserByIdXfetch => cases hwrites

end Payloads

/-! ## In memory -/

section InMemory

variable [PyCase]

structure UserRepository.Plain (s : UserRepository) : Prop where
  ok : s.Ok
  plain : ∀ id user, s.entity? id = some user → ¬ user.Privileged

omit [PyCase] in
lemma UserRepository.Plain.change {s s' : UserRepository} (h : s.Plain) (hok : s'.Ok)
    (hf : NoPromotion f)
    (hs' : ∀ id, s'.entity? id = if id = userId then (s.entity? id).map f else s.entity? id) :
    s'.Plain := by
  refine ⟨hok, fun id user hu => ?_⟩
  rw [hs'] at hu
  split at hu
  · obtain ⟨old, hold, rfl⟩ := map_eq_some_iff.mp hu
    exact hf old (h.plain id old hold)
  · exact h.plain id user hu

omit [PyCase] in
lemma UserRepository.Plain.create {s : UserRepository} (h : s.Plain)
    (ha : ∀ id now, ¬ (newUser id now a).Privileged) (now : Time) : (s.create now a).2.Plain := by
  refine ⟨h.ok.create now a, fun id user hu => ?_⟩
  rw [h.ok.entity?_create] at hu
  split at hu
  · cases hu
    exact ha _ now
  · exact h.plain id user hu

omit [PyCase] in
lemma UserRepository.Plain.setPasswordHash {s : UserRepository} (h : s.Plain) (r : Ref)
    (hash : String) (hok : (s.setPasswordHash r hash).Ok) : (s.setPasswordHash r hash).Plain := by
  refine ⟨hok, fun id user hu => ?_⟩
  obtain ⟨r', hr', rfl⟩ := entity?_eq_some.mp hu
  have hsame := Heap.key_read_write (fun user : UserEntity => (user.role, user.permissions))
    s.heap r (a := { s.heap.read r with passwordHash := hash }) rfl r'
  have hold := h.plain id _ (entity?_of_find hr')
  obtain ⟨hrole, hperms⟩ := Prod.mk.inj hsame
  simp only [UserEntity.Privileged, UserRepository.setPasswordHash, hrole, hperms]
  exact hold

lemma UserRepository.Plain.exec {db : UserDb} (h : db.users.Plain) (o : UserAnswer) {c : RepoCmd}
    (hc : c.Harmless) (hroll : c.rollsBack = false) : (c.exec o db).2.users.Plain := by
  have hok := h.ok.exec o hroll
  cases c with
  | create => exact h.create hc o.now
  | update userId c => exact h.change hok hc (h.ok.entity?_update)
  | updateNid userId nidNumber =>
    refine h.change hok ?_ (h.ok.entity?_updateNid userId (some nidNumber))
    exact fun _ hu => hu
  | updatePermissions userId permissions =>
    refine h.change hok ?_ (h.ok.entity?_updatePermissions userId permissions)
    exact noPromotion_of_permissions (fun _ => rfl) fun _ => hc
  | updateWithOptimisticLock userId expectedVersion data =>
    refine h.change hok (fun user hu => ?_)
      (h.ok.entity?_updateWithOptimisticLock userId expectedVersion data)
    split
    · exact hc user hu
    · exact hu
  | delete userId =>
    refine ⟨hok, fun id user hu => h.plain id user ?_⟩
    have hu' := (entity?_delete db.users userId id).symm.trans hu
    split at hu'
    · cases hu'
    · exact hu'
  | setPasswordHash r hash => exact h.setPasswordHash r hash hok
  | aexit =>
    cases hroll
    exact h
  | _ => exact h

end InMemory

/-! ## SQL -/

section Sql

def UserTable.Plain (t : UserTable) : Prop :=
  ∀ id user, t.entity? id = some user → ¬ user.Privileged

variable {t : UserTable}

lemma UserTable.Plain.flush (h : t.Plain) {user : UserEntity} (hu : ¬ user.Privileged) :
    (t.flush user).2.Plain := by
  intro id user' hu'
  rw [UserTable.entity?_flush] at hu'
  split at hu'
  · cases hu'
    exact hu
  · exact h id user' hu'

lemma UserTable.Plain.withRow (h : t.Plain) (userId : Int) {f : UserEntity → UserEntity}
    (hf : NoPromotion f) :
    (t.withRow userId fun user => t.flush (f user)).2.Plain := by
  unfold UserTable.withRow
  cases hu : t.entity? userId with
  | none => exact h
  | some user => exact h.flush (hf user (h userId user hu))

lemma UserTable.Plain.updateWithOptimisticLock [PyCase] (h : t.Plain) (userId : Int)
    (expectedVersion : Nat) {data : UserUpdate} (hd : NoPromotion data.assign) :
    (t.updateWithOptimisticLock userId expectedVersion data).2.Plain := by
  unfold UserTable.updateWithOptimisticLock
  cases hu : t.entity? userId with
  | none => exact h
  | some user =>
    dsimp only
    split
    · exact h
    · split
      · exact h
      · exact h.flush (hd user (h userId user hu))

lemma UserTable.Plain.delete (h : t.Plain) (userId : Int) : (t.delete userId).2.Plain := by
  unfold UserTable.delete
  cases t.entity? userId with
  | none => exact h
  | some =>
    intro id user hu
    simp only [UserTable.entity?, find_erase] at hu
    split at hu
    · cases hu
    · exact h id user hu

structure SqlDb.Plain (db : SqlDb) : Prop where
  committed : db.committed.users.Plain
  working : db.working.users.Plain

variable {db : SqlDb}

lemma SqlDb.Plain.select (h : db.Plain) (user : Option UserEntity) : (db.select user).2.Plain := by
  cases user <;> exact ⟨h.committed, h.working⟩

lemma SqlDb.Plain.onUsers (h : db.Plain) (hx : x.2.Plain) : (db.onUsers x).2.Plain := by
  unfold SqlDb.onUsers
  cases x.1 <;> exact ⟨h.committed, hx⟩

lemma SqlDb.Plain.onRow (h : db.Plain) (hx : x.2.Plain) : (db.onRow x).2.Plain := by
  have hdb : SqlDb.Plain { db with working.users := x.2 } := ⟨h.committed, hx⟩
  unfold SqlDb.onRow
  cases x.1 with
  | ok user => exact hdb.select user
  | error => exact hdb

lemma SqlDb.Plain.restart (h : db.Plain) : db.restart.Plain := ⟨h.committed, h.committed⟩

lemma SqlDb.Plain.commit (h : db.Plain) : db.commit.Plain := ⟨h.working, h.working⟩

lemma SqlDb.Plain.execSql [PyCase] (h : db.Plain) (o : UserAnswer) {c : RepoCmd}
    (hc : c.Harmless) : (c.execSql o db).2.Plain := by
  cases c with
  | getById | getByEmail | getByUsername => exact h.select _
  | create =>
    have hnext : UserTable.Plain { db.working.users with lastId := db.working.users.lastId + 1 } :=
      h.working
    exact h.onUsers (hnext.flush (hc _ o.now))
  | update userId => exact h.onRow (h.working.withRow userId hc)
  | updateNid userId => exact h.onRow (h.working.withRow userId fun _ hu => hu)
  | updatePermissions userId =>
    refine h.onRow (h.working.withRow userId ?_)
    exact noPromotion_of_permissions (fun _ => rfl) fun _ => hc
  | updateWithOptimisticLock userId expectedVersion =>
    exact h.onUsers (h.working.updateWithOptimisticLock userId expectedVersion hc)
  | delete userId =>
    have hdeleted := h.working.delete userId
    simp only [RepoCmd.execSql, SqlDb.delete, Prod.map_snd, id]
    split
    · exact ⟨h.committed, hdeleted⟩
    · exact h
  | createPost | setPasswordHash => exact ⟨h.committed, h.working⟩
  | aenter | aexit => exact h.restart
  | commit => exact h.commit
  | read => exact h

end Sql

/-! ## Requests -/

section Requests

variable [PyCase]

def UserCmd.rollsBack : UserCmd → Bool
  | .repo c => c.rollsBack
  | _ => false

variable {call : UserCall}

lemma UserCall.rollsBack_of_may (hcall : ∀ payload title content uow,
      call ≠ .createUserWithInitialPost payload title content uow) (h : call.May c) :
    c.rollsBack = false := by
  cases c with
  | index | redis | outside => rfl
  | repo c =>
    cases call with
    | registerUser =>
      rcases h with hreads | ⟨hash, rfl⟩
      · cases c <;> first | rfl | cases hreads
      · rfl
    | createUserWithInitialPost payload title content uow =>
      exact absurd rfl (hcall payload title content uow)
    | _ => exact (UserCall.updates_may rfl h).2

section Guards

variable {okC : UserCmd → Prop} (hb : Basic okC) (settings : ApiKeySettings)
  (headers : RequestHeaders)

include hb

lemma within_getCurrentUser : (getCurrentUser settings headers).Only okC := by
  unfold getCurrentUser
  cases headers.xApiKey with
  | none => trivial
  | some key =>
    refine within_bind ?_ fun target => ?_
    · cases targetUsername settings key <;> trivial
    · cases target with
      | none => trivial
      | some =>
        refine within_bind (within_handle ?_ fun e _ => ?_) fun user => ?_
        · refine within_call_bind (hb.repo _ rfl) fun r => ?_
          cases r <;> trivial
        · cases e <;> trivial
        · refine within_bind (within_read hb user) fun seen => within_bind ?_ fun _ => trivial
          exact within_ite (fun _ => trivial) fun _ => trivial

lemma within_requireUserOwnership (userId : Int) :
    (requireUserOwnership settings headers userId).Only okC := by
  refine within_bind (within_getCurrentUser hb settings headers) fun user => ?_
  refine within_bind (within_read hb user) fun seen => within_bind ?_ fun _ => trivial
  exact within_ite (fun _ => trivial) fun _ => trivial

lemma within_requirePermission (required : Permission) :
    (requirePermission required settings headers).Only okC := by
  refine within_call_bind (hb.outside _) fun now => ?_
  cases permissionGuard required settings now headers <;> trivial

end Guards

/-- The call that an endpoint makes after its guard; `none` for the permissions. -/
def UserEndpoint.call? : UserEndpoint → Option UserCall
  | .createUser payload => some (.registerUser payload)
  | .createUserWithInitialPost payload title content =>
    some (.createUserWithInitialPost payload title content none)
  | .updateUser userId payload => some (.updateUser userId payload)
  | .updateUserProfile userId payload => some (.updateProfile userId payload)
  | .deleteUser userId => some (.deleteUser userId)
  | .updateUserPermissions .. => none
  | .updateUserWriteThrough userId payload => some (.updateUserWriteThrough userId payload)
  | .updateUserOptimistic userId expectedVersion payload =>
    some (.updateUserOptimistic userId expectedVersion payload)
  | .updateUserNid userId nidNumber => some (.updateNid userId nidNumber)

lemma within_request (settings : ApiKeySettings) (deps : UserDeps) (r : UserRequest)
    (hcall : r.endpoint.call? = some call) :
    (r.prog settings deps).Within call.May fun _ => True := by
  obtain ⟨headers, endpoint⟩ := r
  have hprog := within_prog deps call
  cases endpoint with
  | updateUserPermissions => cases hcall
  | updateUser userId | updateUserProfile userId | updateUserWriteThrough userId =>
    cases hcall
    exact within_bind (within_requireUserOwnership (UserCall.basic _) settings headers userId)
      fun _ => hprog
  | deleteUser =>
    cases hcall
    exact within_bind (within_requirePermission (UserCall.basic _) settings headers .delete)
      fun _ => hprog
  | _ =>
    cases hcall
    exact hprog

lemma UserEndpoint.modest_call {endpoint : UserEndpoint} (h : endpoint.AsksNoAdmin)
    (hcall : endpoint.call? = some call) : call.Modest := by
  cases endpoint with
  | updateUserPermissions => cases hcall
  | updateUserProfile | deleteUser | updateUserNid =>
    cases hcall
    trivial
  | _ =>
    cases hcall
    exact h

/-- What is assumed of the caller: whoever the permission guard takes them for, at the time
at which it looks at the clock, is not privileged. (`get_current_user` returns a stored user.) -/
def ServerStep.CallerUnprivileged (settings : ApiKeySettings) : ServerStep → Prop
  | .request ⟨headers, .updateUserPermissions ..⟩ o _ | .request ⟨headers, .deleteUser _⟩ o _ =>
    ∀ user, getCurrentAuthenticatedUser settings (o 0).now headers = .ok user → ¬ user.Privileged
  | _ => True

def ServerStep.AsksNoAdmin : ServerStep → Prop
  | .request r _ _ => r.endpoint.AsksNoAdmin
  | .expire _ => True

omit [PyCase] in
lemma setPermissions_refused
    (h : ∀ user, getCurrentAuthenticatedUser settings now headers = .ok user → ¬ user.Privileged) :
    ∃ e, permissionGuard .admin settings now headers = .error e :=
  permissionGuard_error fun user hu => eq_false_of_ne_true fun hperm => h user hu (.inr hperm)

variable [Sha256]

section Step

variable {settings : ApiKeySettings} {r : UserRequest} {o : Nat → UserAnswer}

lemma UserRepository.Plain.request {w : UserWorld} (h : w.db.users.Plain)
    (hasks : r.endpoint.AsksNoAdmin) {call : UserCall} (hcall : r.endpoint.call? = some call) :
    (w.run (r.prog settings deps) o).2.db.users.Plain := by
  have hmodest := UserEndpoint.modest_call hasks hcall
  by_cases hinitial : ∀ payload title content uow,
      call ≠ .createUserWithInitialPost payload title content uow
  · have hruns : w.Runs (fun _ => True) (r.prog settings deps) fun _ w => w.db.users.Plain := by
      refine Machine.ends_within (M := userMachine) (F := fun _ w => w.db.users.Plain)
        (fun c o _ w hc hF => ⟨?_, fun _ _ => trivial⟩) (within_request settings deps r hcall) h
      have hharmless := UserCall.harmless_of_may hmodest hc
      have hroll := UserCall.rollsBack_of_may hinitial hc
      cases c with
      | repo => exact hF.exec o hharmless hroll
      | _ => exact hF
    exact hruns.run_any o
  · -- The unit of work can put back its snapshot: what the whole call does.
    obtain ⟨headers, endpoint⟩ := r
    cases endpoint with
    | createUserWithInitialPost payload title content =>
      refine UserWorld.Runs.run_any (Q := fun _ w' => w'.db.users.Plain) (runs_bind.mpr ?_) o
      refine runs_createUserWithInitialPost deps payload title content none ?_ ?_
      · exact fun _ e db hdb => hdb ▸ h
      · intro _ _ now hash _ db hdb
        have hcreated := h.create (not_privileged_args payload hasks hash) now
        change db.users.Plain
        rw [hdb]
        exact hcreated
    | updateUserPermissions => cases hcall
    | _ =>
      cases hcall
      exact absurd (fun _ _ _ _ hcase => (by cases hcase)) hinitial

lemma SqlDb.Plain.request {w : SqlWorld} (h : w.db.Plain) (hasks : r.endpoint.AsksNoAdmin)
    {call : UserCall} (hcall : r.endpoint.call? = some call) :
    (w.run (r.prog settings deps) o).2.db.Plain := by
  have hends : sqlUserMachine.Ends (fun _ => True) 0 (r.prog settings deps)
      (fun _ _ w => w.db.Plain) () w := by
    refine Machine.ends_within (M := sqlUserMachine) (F := fun _ w => w.db.Plain)
      (fun c o _ w hc hF => ⟨?_, fun _ _ => trivial⟩) (within_request settings deps r hcall) h
    have hharmless := UserCall.harmless_of_may (UserEndpoint.modest_call hasks hcall) hc
    cases c with
    | repo => exact hF.execSql o hharmless
    | _ => exact hF
  exact Machine.run_of_ends hends fun _ => trivial

end Step

/-! ## Histories -/

/-- No stored user is privileged; what the repository needs besides is that it is well formed. -/
def UserBackend.Plain : (b : UserBackend) → b.World → Prop
  | .inMemory, w => w.db.users.Plain
  | .sqlAlchemy, w => w.db.committed.users.Plain

def UserBackend.WellFormed : (b : UserBackend) → b.World → Prop
  | .inMemory, w => w.db.users.Ok
  | .sqlAlchemy, _ => True

lemma SqlWorld.plain_inSession {w : SqlWorld} (h : w.db.committed.users.Plain)
    (hrun : ∀ w : SqlWorld, w.db.Plain → (w.run p o).2.db.Plain) :
    (w.inSession p o commits).db.committed.users.Plain := by
  have hstart : SqlDb.Plain w.db.restart := ⟨h, h⟩
  have hend := hrun { w with db := w.db.restart } hstart
  unfold inSession
  rcases hr : run { w with db := w.db.restart } p o with ⟨r, w'⟩
  rw [hr] at hend
  dsimp only
  split
  · exact hend.working
  · exact hend.committed

lemma UserBackend.Plain.step {settings : ApiKeySettings} {deps : UserDeps} (b : UserBackend)
    {w : b.World} (h : b.Plain w) {step : ServerStep}
    (hcaller : step.CallerUnprivileged settings) (hasks : step.AsksNoAdmin) :
    b.Plain (b.exec settings deps w step) := by
  cases step with
  | expire e => cases b <;> cases e <;> exact h
  | request r o commits =>
    cases hcall : r.endpoint.call? with
    | some =>
      cases b with
      | inMemory => exact UserRepository.Plain.request h hasks hcall
      | sqlAlchemy =>
        exact plain_inSession h (fun w hw => hw.request hasks hcall)
    | none =>
      obtain ⟨headers, endpoint⟩ := r
      cases endpoint with
      | updateUserPermissions =>
        obtain ⟨e, he⟩ := setPermissions_refused hcaller
        cases b with
        | inMemory =>
          change (w.run ((Prog.ofExcept (permissionGuard .admin settings (o 0).now headers)).bind _)
            fun n => o (n + 1)).2.db.users.Plain
          rw [he]
          exact h
        | sqlAlchemy =>
          refine plain_inSession h (fun w hw => ?_)
          change (w.run ((Prog.ofExcept (permissionGuard .admin settings (o 0).now headers)).bind _)
            fun n => o (n + 1)).2.db.Plain
          rw [he]
          exact hw
      | _ => cases hcall

/-- In every history of requests that ask for no role `admin`, by callers without privileges, no
stored user is ever privileged. -/
theorem unprivileged_of_asksNoAdmin (settings : ApiKeySettings) (deps : UserDeps) (b : UserBackend)
    (w : b.World) (hok : b.WellFormed w) (hstart : b.Unprivileged w) (steps : List ServerStep)
    (hsafe : Along (b.exec settings deps)
      (fun _ step => step.CallerUnprivileged settings ∧ step.AsksNoAdmin) w steps) :
    Always (b.exec settings deps) b.Unprivileged w steps := by
  have hplain : b.Plain w := by
    cases b with
    | inMemory => exact ⟨hok, hstart⟩
    | sqlAlchemy => exact hstart
  have hall : Always (b.exec settings deps) b.Plain w steps :=
    hsafe.invariant (fun _ _ h hstep => h.step b hstep.1 hstep.2) hplain
  intro before hb
  have hend := hall before hb
  cases b with
  | inMemory => exact hend.plain
  | sqlAlchemy => exact hend

end Requests

def openRequest (endpoint : @UserEndpoint asciiCase) : @ServerStep asciiCase :=
  letI := asciiCase
  .request { endpoint := endpoint } (fun _ => {}) true

def keyRequest (key : String) (endpoint : @UserEndpoint asciiCase) : @ServerStep asciiCase :=
  letI := asciiCase
  .request { headers := { xApiKey := some key }, endpoint := endpoint } (fun _ => {}) true

/-- A registration, an update by its owner, and the permissions that the owner does not get. -/
def ordinaryRequests : List (@ServerStep asciiCase) :=
  letI := asciiCase
  [openRequest (.createUser annCreate),
    keyRequest "userkey_ann" (.updateUser 1 { age := some (some 31) }),
    keyRequest "userkey_ann" (.updateUserPermissions 1 { grant := some 8 })]

theorem unprivileged_of_asksNoAdmin_owner :
    letI := asciiCase
    letI := zeroDigest
    (UserBackend.WellFormed .inMemory UserWorld.empty ∧
      UserBackend.Unprivileged .inMemory UserWorld.empty ∧
      Along (exec {} {} .inMemory)
        (fun _ step => step.CallerUnprivileged {} ∧ step.AsksNoAdmin) UserWorld.empty
        ordinaryRequests) ∧
      Always (exec {} {} .inMemory) (UserBackend.Unprivileged .inMemory)
        UserWorld.empty ordinaryRequests := by
  let := asciiCase
  let := zeroDigest
  have hstart : UserBackend.Unprivileged .inMemory UserWorld.empty := fun _ _ h => by cases h
  have hclaims : getCurrentAuthenticatedUser {} 0 { xApiKey := some "userkey_ann" } =
      .ok ⟨3, "user", 3⟩ := by decide +kernel
  have hsafe : Along (exec {} {} .inMemory)
      (fun _ step => step.CallerUnprivileged {} ∧ step.AsksNoAdmin) UserWorld.empty
      ordinaryRequests := by
    refine ⟨⟨trivial, fun h => ?_⟩, ⟨trivial, fun h => ?_⟩, ⟨fun user hu => ?_, trivial⟩, trivial⟩
    · cases h
    · cases h
    · cases hclaims.symm.trans hu
      decide
  exact ⟨⟨ok_empty, hstart, hsafe⟩,
    unprivileged_of_asksNoAdmin {} {} .inMemory UserWorld.empty ok_empty hstart _ hsafe⟩

lemma not_unprivileged {b : UserBackend} {w : b.World} (id : Int)
    (h : (b.stored? w id).any (fun user => decide user.Privileged) = true) :
    ¬ b.Unprivileged w := by
  intro hall
  cases hu : b.stored? w id with
  | none => simp [hu] at h
  | some user =>
    rw [hu] at h
    exact hall id user hu (of_decide_eq_true h)

/-- Everybody can register as `admin`. -/
def registerAdmin : List (@ServerStep asciiCase) :=
  letI := asciiCase
  [openRequest (.createUser { annCreate with role := .admin })]

def promoteOptimistic : List (@ServerStep asciiCase) :=
  letI := asciiCase
  [openRequest (.createUser annCreate),
    openRequest (.updateUserOptimistic 1 1 { role := some (some .admin) })]

def promoteSelf : List (@ServerStep asciiCase) :=
  letI := asciiCase
  [openRequest (.createUser annCreate),
    keyRequest "userkey_ann" (.updateUser 1 { role := some (some .admin) })]

/-- Each of these makes a privileged user, over both repositories. -/
theorem admin_by_payload :
    letI := asciiCase
    letI := zeroDigest
    (¬ UserBackend.Unprivileged .inMemory
        (registerAdmin.foldl (exec {} {} .inMemory) UserWorld.empty) ∧
      ¬ UserBackend.Unprivileged .inMemory
        (promoteOptimistic.foldl (exec {} {} .inMemory) UserWorld.empty) ∧
      ¬ UserBackend.Unprivileged .inMemory
        (promoteSelf.foldl (exec {} {} .inMemory) UserWorld.empty)) ∧
      ¬ UserBackend.Unprivileged .sqlAlchemy
        (registerAdmin.foldl (exec {} {} .sqlAlchemy) empty) ∧
      ¬ UserBackend.Unprivileged .sqlAlchemy
        (promoteOptimistic.foldl (exec {} {} .sqlAlchemy) empty) ∧
      ¬ UserBackend.Unprivileged .sqlAlchemy
        (promoteSelf.foldl (exec {} {} .sqlAlchemy) empty) := by
  let := asciiCase
  let := zeroDigest
  refine ⟨⟨?_, ?_, ?_⟩, ?_, ?_, ?_⟩ <;> exact not_unprivileged 1 (by decide +kernel)

end CleanArch
