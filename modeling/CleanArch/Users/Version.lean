import CleanArch.Steps.Along
import CleanArch.Users.Repository

/-!
# Versions and lost updates

A client reads a user with version `v`, and later writes with `update_with_optimistic_lock` and the
expected version `v`. The version should tell whether the user was changed in between, by any
operation of the repository (`UserBackend`). Only `update` does not move it.
-/

namespace CleanArch

open Objects Steps

/-!
## The user repository over SQL

The calls of `SqlAlchemyUserRepository` (`app/repositories/sqlalchemy_user_repository.py`) that
`InMemoryUserRepository` also has, on the rows of the table `users`. The entities that it gives out
are copies of rows. A row is flushed as a whole, and the constraints of the table (`unique`,
`nullable=False`) can refuse it; a refused flush changes nothing.
-/

/-- The table `users`. -/
structure UserTable where
  rows : List (Int × UserEntity) := []
  lastId : Int := 0
  deriving DecidableEq

namespace UserTable

def entity? (s : UserTable) (id : Int) : Option UserEntity := Assoc.find s.rows id

def Admits (s : UserTable) (user : UserEntity) : Prop :=
  user.email ≠ none ∧ user.username ≠ none ∧
    ∀ p ∈ s.rows, p.1 ≠ user.id → p.2.email ≠ user.email ∧ p.2.username ≠ user.username

instance (s : UserTable) (user : UserEntity) : Decidable (s.Admits user) :=
  inferInstanceAs (Decidable (_ ∧ _ ∧ _))

def getByEmail (s : UserTable) (email : String) : Option UserEntity :=
  (s.rows.find? (·.2.email = some email)).map (·.2)

def getByUsername (s : UserTable) (username : String) : Option UserEntity :=
  (s.rows.find? (·.2.username = some username)).map (·.2)

/-- `flush` of a row that was added or changed. -/
def flush (s : UserTable) (user : UserEntity) : Except UserError UserEntity × UserTable :=
  if s.Admits user then (.ok user, { s with rows := Assoc.set s.rows user.id user })
  else (.error .integrityError, s)

def create (s : UserTable) (now : Time) (a : UserCreateArgs) :
    Except UserError UserEntity × UserTable :=
  { s with lastId := s.lastId + 1 : UserTable }.flush
    (UserRepository.newUser (s.lastId + 1) now a)

/-- The fields that `update` assigns; it has a parameter for the national id. -/
def assigned (c : UserChanges) (nidNumber : Option String) (user : UserEntity) : UserEntity :=
  { c.apply user with nidNumber := nidNumber.or user.nidNumber }

/-- A call on a row that `select` has found. -/
def withRow (s : UserTable) (userId : Int)
    (f : UserEntity → Except UserError UserEntity × UserTable) :
    Except UserError (Option UserEntity) × UserTable :=
  match s.entity? userId with
  | none => (.ok none, s)
  | some user => ((f user).1.map some, (f user).2)

def update (s : UserTable) (userId : Int) (c : UserChanges) (nidNumber : Option String) :
    Except UserError (Option UserEntity) × UserTable :=
  s.withRow userId fun user => s.flush (assigned c nidNumber user)

def updateNid (s : UserTable) (userId : Int) (nidNumber : Option String) :
    Except UserError (Option UserEntity) × UserTable :=
  s.withRow userId fun user =>
    s.flush { user with nidNumber := nidNumber, version := user.version + 1 }

def updatePermissions (s : UserTable) (userId : Int) (permissions : Nat) :
    Except UserError (Option UserEntity) × UserTable :=
  s.withRow userId fun user =>
    s.flush { user with permissions := permissions, version := user.version + 1 }

/-- `update_with_optimistic_lock`. A role that is set to `null` stays so, which the column does
not take. -/
def updateWithOptimisticLock [PyCase] (s : UserTable) (userId : Int) (expectedVersion : Nat)
    (data : UserUpdate) : Except UserError UserEntity × UserTable :=
  match s.entity? userId with
  | none => (.error .optimisticLock, s)
  | some user =>
    if user.version ≠ expectedVersion then (.error .optimisticLock, s)
    else if data.role = some none then (.error .integrityError, s)
    else s.flush (data.assign user)

def delete (s : UserTable) (userId : Int) : Bool × UserTable :=
  match s.entity? userId with
  | none => (false, s)
  | some _ => (true, { s with rows := Assoc.erase s.rows userId })

/-! ## Rows -/

structure Ok (s : UserTable) : Prop where
  id_eq : ∀ id user, s.entity? id = some user → user.id = id
  le_lastId : ∀ id user, s.entity? id = some user → id ≤ s.lastId

lemma ok_empty : ({} : UserTable).Ok where
  id_eq _ _ h := by cases h
  le_lastId _ _ h := by cases h

variable {s : UserTable}

lemma entity?_flush (s : UserTable) (id : Int) : (s.flush user).2.entity? id =
      if id = user.id ∧ s.Admits user then some user else s.entity? id := by
  unfold flush entity?
  by_cases ha : s.Admits user
  · by_cases hid : id = user.id <;> simp [ha, hid, Assoc.find_set, Ne.symm]
  · simp [ha]

lemma Ok.flush (h : s.Ok) (hle : user.id ≤ s.lastId) : (s.flush user).2.Ok := by
  have hlast : (s.flush user).2.lastId = s.lastId := by
    unfold UserTable.flush
    split <;> rfl
  constructor <;> intro id user' he <;> rw [entity?_flush] at he <;> split at he
  · next hid =>
    cases he
    exact hid.1.symm
  · exact h.id_eq id user' he
  · next hid =>
    cases he
    rw [hid.1, hlast]
    exact hle
  · rw [hlast]
    exact h.le_lastId id user' he

lemma Ok.create (h : s.Ok) (now : Time) (a : UserCreateArgs) : (s.create now a).2.Ok := by
  have h' : ({ s with lastId := s.lastId + 1 } : UserTable).Ok := by
    refine ⟨h.id_eq, fun id user he => ?_⟩
    have := h.le_lastId id user he
    dsimp only
    omega
  exact h'.flush (Int.le_refl _)

lemma Ok.withRow (h : s.Ok) (userId : Int) {f : UserEntity → UserEntity}
    (hf : ∀ user, (f user).id = user.id) :
    (s.withRow userId fun user => s.flush (f user)).2.Ok := by
  unfold UserTable.withRow
  cases he : s.entity? userId with
  | none => exact h
  | some user =>
    refine h.flush ?_
    rw [hf, h.id_eq userId user he]
    exact h.le_lastId userId user he

lemma Ok.updateWithOptimisticLock [PyCase] (h : s.Ok) (userId : Int) (expectedVersion : Nat)
    (data : UserUpdate) : (s.updateWithOptimisticLock userId expectedVersion data).2.Ok := by
  unfold UserTable.updateWithOptimisticLock
  cases he : s.entity? userId with
  | none => exact h
  | some user =>
    dsimp only
    split
    · exact h
    · split
      · exact h
      · refine h.flush ?_
        rw [show (data.assign user).id = user.id from rfl, h.id_eq userId user he]
        exact h.le_lastId userId user he

lemma Ok.entity?_withRow (h : s.Ok) {f : UserEntity → UserEntity}
    (hf : ∀ user, (f user).id = user.id) (id : Int) :
    (s.withRow userId fun user => s.flush (f user)).2.entity? id =
      if id = userId then (s.entity? id).map fun user => if s.Admits (f user) then f user else user
      else s.entity? id := by
  unfold UserTable.withRow
  cases he : s.entity? userId with
  | none =>
    by_cases hid : id = userId <;> simp [hid, he]
  | some user =>
    have hid' := h.id_eq userId user he
    rw [entity?_flush, hf, hid']
    by_cases hid : id = userId
    · subst hid
      by_cases ha : s.Admits (f user) <;> simp [ha, he]
    · simp [hid]

end UserTable

section Versions

variable [PyCase]

def UserTable.call (s : UserTable) : UserRepoOp → UserTable
  | .create now a => (s.create now a).2
  | .update userId c nidNumber => (s.update userId c nidNumber).2
  | .updateNid userId nidNumber => (s.updateNid userId nidNumber).2
  | .updatePermissions userId permissions => (s.updatePermissions userId permissions).2
  | .updateWithOptimisticLock userId expectedVersion data =>
    (s.updateWithOptimisticLock userId expectedVersion data).2

/-- `update` of user `id` gives only values that the user has. -/
def UserChanges.Idle (c : UserChanges) (user : UserEntity) : Prop := c.apply user = user

omit [PyCase] in
lemma moved_of_map {id userId : Int} {o o' : Option UserEntity} (ho : o = some user)
    (ho' : o' = if id = userId then o.map f else o)
    (hf : id = userId → f user = user ∨ user.version < (f user).version) :
    ∃ user', o' = some user' ∧ (user' = user ∨ user.version < user'.version) := by
  subst ho ho'
  by_cases hid : id = userId
  · exact ⟨f user, if_pos hid, hf hid⟩
  · exact ⟨user, if_neg hid, .inl rfl⟩

/-! ## In memory -/

namespace UserRepository

/-- An `update` of user `id` that is idle, if the operation is one. -/
def IdleUpdate (s : UserRepository) (id : Int) : UserRepoOp → Prop
  | .update userId c none => userId = id → ∀ user ∈ s.entity? id, c.Idle user
  | _ => True

variable {s : UserRepository} {id : Int}

lemma Ok.call_moves (h : s.Ok) (he : s.entity? id = some user) (hidle : s.IdleUpdate id op) :
    Steps.Moves UserRepository.call (·.entity? id) UserEntity.version s user op := by
  unfold Steps.Moves
  cases op with
  | create =>
    have hle := h.entity?_le he
    exact ⟨user, by simp [UserRepository.call, h.entity?_create, he]; omega, .inl rfl⟩
  | update userId c nidNumber =>
    cases nidNumber with
    | some => exact ⟨user, he, .inl rfl⟩
    | none => exact moved_of_map he (h.entity?_update id) fun hid => .inl (hidle hid.symm user he)
  | updateNid userId nidNumber =>
    exact moved_of_map he (h.entity?_updateNid userId nidNumber id) fun _ => .inr (lt_add_one _)
  | updatePermissions userId permissions =>
    exact moved_of_map he (h.entity?_updatePermissions userId permissions id)
      fun _ => .inr (lt_add_one _)
  | updateWithOptimisticLock userId expectedVersion data =>
    refine moved_of_map he (h.entity?_updateWithOptimisticLock userId expectedVersion data id)
      fun _ => ?_
    split
    · exact .inr (lt_add_one _)
    · exact .inl rfl

lemma Ok.idleUpdate (h : s.Ok) (he : s.entity? id = some user)
    (he' : (s.call op).entity? id = some user) : s.IdleUpdate id op := by
  cases op with
  | update userId c nidNumber =>
    cases nidNumber with
    | some => trivial
    | none =>
      intro hid user' hu
      cases hid
      have hu : user = user' := Option.some.inj (he.symm.trans hu)
      subst hu
      simpa [UserRepository.call, h.entity?_update, he, UserChanges.Idle] using he'
  | _ => trivial

end UserRepository

/-! ## SQL -/

namespace UserTable

lemma Ok.call {s : UserTable} (h : s.Ok) (op : UserRepoOp) : (s.call op).Ok := by
  cases op with
  | create now a => exact h.create now a
  | update userId | updateNid userId | updatePermissions userId =>
    exact h.withRow userId fun _ => rfl
  | updateWithOptimisticLock userId expectedVersion data =>
    exact h.updateWithOptimisticLock userId expectedVersion data

/-- An `update` of user `id` that the constraints refuse or that is idle, if the operation is
one. -/
def IdleUpdate (s : UserTable) (id : Int) : UserRepoOp → Prop
  | .update userId c nidNumber => userId = id → ∀ user ∈ s.entity? id,
      s.Admits (assigned c nidNumber user) → assigned c nidNumber user = user
  | _ => True

variable {s : UserTable} {id : Int}

omit [PyCase] in
lemma Ok.withRow_moves (h : s.Ok) (he : s.entity? id = some user)
    {f : UserEntity → UserEntity} (hf : ∀ user, (f user).id = user.id)
    (hv : s.Admits (f user) → id = userId → f user = user ∨ user.version < (f user).version) :
    ∃ user', (s.withRow userId fun user => s.flush (f user)).2.entity? id = some user' ∧
      (user' = user ∨ user.version < user'.version) := by
  refine moved_of_map he (h.entity?_withRow hf id) fun hid => ?_
  split
  · exact hv ‹_› hid
  · exact .inl rfl

lemma Ok.call_moves (h : s.Ok) (he : s.entity? id = some user) (hidle : s.IdleUpdate id op) :
    Steps.Moves UserTable.call (·.entity? id) UserEntity.version s user op := by
  unfold Steps.Moves
  cases op with
  | create =>
    have hle := h.le_lastId id user he
    refine ⟨user, ?_, .inl rfl⟩
    simp only [UserTable.call, UserTable.create, entity?_flush]
    rw [if_neg]
    · exact he
    · simp only [UserRepository.newUser]
      omega
  | update userId =>
    refine h.withRow_moves he (fun _ => rfl) fun ha hid => .inl ?_
    exact hidle hid.symm user he ha
  | updateNid userId | updatePermissions userId =>
    exact h.withRow_moves he (fun _ => rfl) fun _ _ => .inr (Nat.lt_succ_self _)
  | updateWithOptimisticLock userId expectedVersion data =>
    simp only [UserTable.call, UserTable.updateWithOptimisticLock]
    cases he' : s.entity? userId with
    | none => exact ⟨user, he, .inl rfl⟩
    | some user' =>
      dsimp only
      split
      · exact ⟨user, he, .inl rfl⟩
      · split
        · exact ⟨user, he, .inl rfl⟩
        · rw [entity?_flush]
          split
          · next hid =>
            -- the row that was found is the user's
            have hrow : user' = user := by
              rw [hid.1, show (data.assign user').id = user'.id from rfl,
                h.id_eq userId user' he', he'] at he
              exact Option.some.inj he
            exact ⟨_, rfl, .inr (by rw [hrow]; exact Nat.lt_succ_self _)⟩
          · exact ⟨user, he, .inl rfl⟩

lemma Ok.idleUpdate (h : s.Ok) (he : s.entity? id = some user)
    (he' : (s.call op).entity? id = some user) : s.IdleUpdate id op := by
  cases op with
  | update userId c nidNumber =>
    intro hid user' hu ha
    cases hid
    have hu : user = user' := Option.some.inj (he.symm.trans hu)
    subst hu
    simp only [UserTable.call, UserTable.update] at he'
    have hid : ∀ user, (assigned c nidNumber user).id = user.id := fun _ => rfl
    rw [h.entity?_withRow hid] at he'
    simpa [he, ha] using he'
  | _ => trivial

end UserTable

/-! ## Both -/

/-- The implementations of `UserRepositoryProtocol`. -/
inductive UserBackend where
  | inMemory
  | sqlAlchemy

namespace UserBackend

def State : UserBackend → Type
  | .inMemory => UserRepository
  | .sqlAlchemy => UserTable

def call : (b : UserBackend) → b.State → UserRepoOp → b.State
  | .inMemory => UserRepository.call
  | .sqlAlchemy => UserTable.call

def run : (b : UserBackend) → List UserRepoOp → b.State
  | .inMemory, ops => ops.foldl UserRepository.call {}
  | .sqlAlchemy, ops => ops.foldl UserTable.call {}

def entity? : (b : UserBackend) → b.State → Int → Option UserEntity
  | .inMemory => UserRepository.entity?
  | .sqlAlchemy => UserTable.entity?

/-- `update_with_optimistic_lock` returns a user. -/
def Accepts : (b : UserBackend) → b.State → Int → Nat → UserUpdate → Prop
  | .inMemory, s, id, expectedVersion, data =>
    ∃ r, (s.updateWithOptimisticLock id expectedVersion data).1 = .ok r
  | .sqlAlchemy, s, id, expectedVersion, data =>
    ∃ user, (s.updateWithOptimisticLock id expectedVersion data).1 = .ok user

/-- If the operation is an `update` of user `id`, it gives only values that the user has (or the
table refuses it). -/
def IdleUpdate : (b : UserBackend) → b.State → Int → UserRepoOp → Prop
  | .inMemory => UserRepository.IdleUpdate
  | .sqlAlchemy => UserTable.IdleUpdate

lemma Accepts.version {b : UserBackend} {s : b.State} {id : Int}
    (h : b.Accepts s id expectedVersion data) :
    ∃ user, b.entity? s id = some user ∧ user.version = expectedVersion := by
  cases b with
  | inMemory =>
    obtain ⟨r, hr⟩ := h
    unfold UserRepository.updateWithOptimisticLock UserRepository.getById at hr
    cases hfind : Assoc.find s.store id with
    | none => simp [hfind] at hr
    | some r' =>
      refine ⟨s.heap.read r', by simp [entity?, UserRepository.entity?, hfind], ?_⟩
      by_contra hv
      simp [hfind, hv] at hr
  | sqlAlchemy =>
    obtain ⟨user', hr⟩ := h
    unfold UserTable.updateWithOptimisticLock at hr
    cases he : UserTable.entity? s id with
    | none => simp [he] at hr
    | some user =>
      refine ⟨user, he, ?_⟩
      by_contra hv
      simp [he, hv] at hr

end UserBackend

open UserBackend in
/-- A user is seen after the operations `past`. An optimistic write with the version that was seen,
accepted after the operations `ops`, finds the user as it was seen all along, if and only if every
`update` in between was idle. -/
theorem optimistic_lock_iff (b : UserBackend) (past ops : List UserRepoOp) (id : Int)
    (user : UserEntity) (data : UserUpdate) (hseen : b.entity? (b.run past) id = some user)
    (haccept : b.Accepts (ops.foldl b.call (b.run past)) id user.version data) :
    Always b.call (fun s => b.entity? s id = some user) (b.run past) ops ↔
      Along b.call (fun s op => b.IdleUpdate s id op) (b.run past) ops := by
  obtain ⟨user', hend, hv⟩ := haccept.version
  cases b with
  | inMemory =>
    have hok : UserRepository.Ok (List.foldl UserRepository.call {} past) :=
      (always_of_step (fun _ op h => h.call op) UserRepository.ok_empty past).last
    exact unchanged_iff (I := UserRepository.Ok) (fun _ op h => h.call op)
      (fun _ _ _ h he => h.call_moves he) (fun _ _ _ h he => h.idleUpdate he) hok hseen hend hv
  | sqlAlchemy =>
    have hok : UserTable.Ok (List.foldl UserTable.call {} past) :=
      (always_of_step (fun _ op h => h.call op) UserTable.ok_empty past).last
    exact unchanged_iff (I := UserTable.Ok) (fun _ op h => h.call op)
      (fun _ _ _ h he => h.call_moves he) (fun _ _ _ h he => h.idleUpdate he) hok hseen hend hv

end Versions

/-- The age is written again, and the user is as it was seen. -/
theorem optimistic_lock_iff_same_age :
    letI := asciiCase
    UserBackend.inMemory.entity? (UserBackend.inMemory.run [.create 0 ann]) 1 =
        some (UserRepository.newUser 1 0 ann) ∧
      UserBackend.inMemory.Accepts
        (UserBackend.inMemory.run [.create 0 ann, .update 1 { age := some 30 } none]) 1 1 {} ∧
      (Always UserBackend.inMemory.call (fun s => UserBackend.inMemory.entity? s 1 =
          some (UserRepository.newUser 1 0 ann)) (UserBackend.inMemory.run [.create 0 ann])
          [.update 1 { age := some 30 } none] ↔
        Along UserBackend.inMemory.call (fun s op => UserBackend.inMemory.IdleUpdate s 1 op)
          (UserBackend.inMemory.run [.create 0 ann]) [.update 1 { age := some 30 } none]) := by
  let _ := asciiCase
  have hseen : UserBackend.inMemory.entity? (UserBackend.inMemory.run [.create 0 ann]) 1 =
      some (UserRepository.newUser 1 0 ann) := by rfl
  have haccept : UserBackend.inMemory.Accepts
      (UserBackend.inMemory.run [.create 0 ann, .update 1 { age := some 30 } none]) 1 1 {} :=
    ⟨0, by rfl⟩
  exact ⟨hseen, haccept, optimistic_lock_iff .inMemory [.create 0 ann]
    [.update 1 { age := some 30 } none] 1 _ {} hseen haccept⟩

/-- The age is changed with `update`, and a write for the version seen before is accepted. -/
theorem update_overtaken :
    letI := asciiCase
    (UserBackend.inMemory.entity? (UserBackend.inMemory.run [.create 0 ann]) 1).map
        (fun user => (user.version, user.age)) = some (1, some 30) ∧
      (UserBackend.inMemory.entity? (UserBackend.inMemory.run
        [.create 0 ann, .update 1 { age := some 31 } none]) 1).map UserEntity.age = some (some 31) ∧
      UserBackend.inMemory.Accepts (UserBackend.inMemory.run
        [.create 0 ann, .update 1 { age := some 31 } none]) 1 1 {} ∧
      (UserBackend.sqlAlchemy.entity? (UserBackend.sqlAlchemy.run
        [.create 0 ann, .update 1 { age := some 31 } none]) 1).map UserEntity.age = some (some 31) ∧
      UserBackend.sqlAlchemy.Accepts (UserBackend.sqlAlchemy.run
        [.create 0 ann, .update 1 { age := some 31 } none]) 1 1 {} := by
  let _ := asciiCase
  exact ⟨by rfl, by rfl, ⟨0, by rfl⟩, by decide +kernel,
    ⟨{ UserRepository.newUser 1 0 ann with age := some 31, version := 2 }, by decide +kernel⟩⟩

end CleanArch
