import CleanArch.Dsa.Trie
import CleanArch.Objects.Heap

/-!
# The in-memory user repository

`InMemoryUserRepository` (`app/repositories/user_repository.py`). A stored user is an object, and
the repository gives out references to it: `update`, `update_nid` and `update_with_optimistic_lock`
write the object in place, `update_permissions` stores a new one. `UserDicts` are the parts that are
replaced as a whole when a unit of work rolls back.
-/

namespace CleanArch

open Assoc Objects

/-!
## The data of the users

The user entity, the payloads of the endpoints and the exceptions (`app/schemas/user.py`,
`app/repositories/user_repository.py`, `app/core/exceptions.py`).

- **Payloads** have been checked by pydantic: a user name is stripped and in lower case, a full name
  is stripped, and neither is empty (`Username`, `FullName`).
- **A field that is not set** differs from one that is `null`: a field of `UserUpdate` is `none`,
  `some none` or `some (some x)`. `exclude_unset` keeps the latter two.
- **An entity** can have no email or user name: the optimistic update writes an explicit `null`.
-/

inductive UserRole where
  | user
  | admin
  | enterprise
  deriving DecidableEq

def UserRole.value : UserRole → String
  | .user => "user"
  | .admin => "admin"
  | .enterprise => "enterprise"

structure UserEntity where
  id : Int
  email : Option String
  username : Option String
  passwordHash : String
  isActive : Bool := true
  createdAt : Time
  version : Nat := 1
  age : Option Nat := none
  role : String := "user"
  fullName : Option String := none
  phoneNumber : Option String := none
  bio : Option String := none
  companyName : Option String := none
  permissions : Nat := 3
  nidNumber : Option String := none
  deriving DecidableEq, Inhabited

/-! ## Payloads -/

section Payloads

variable [PyCase]

/-- A user name after `sanitize_username_before` and its checks. -/
structure Username where
  text : String
  strip_text : PyStr.strip text = text
  lower_text : PyCase.lower text = text
  ne_empty : text ≠ ""

/-- A full name after `sanitize_full_name_before`. -/
structure FullName where
  text : String
  strip_text : PyStr.strip text = text
  ne_empty : text ≠ ""
  lower_ne_empty : PyCase.lower text ≠ ""

/-- `UserCreate`, as far as the service reads it. -/
structure UserCreate where
  email : String
  username : Username
  password : String
  age : Option Nat := none
  role : UserRole := .user
  fullName : Option FullName := none
  phoneNumber : Option String := none
  bio : Option String := none
  companyName : Option String := none

structure UserUpdate where
  email : Option (Option String) := none
  username : Option (Option Username) := none
  age : Option (Option Nat) := none
  role : Option (Option UserRole) := none
  fullName : Option (Option FullName) := none
  phoneNumber : Option (Option String) := none
  bio : Option (Option String) := none
  companyName : Option (Option String) := none

/-- `UserProfileUpdate`: its fields are read as attributes, so unset is `null`. -/
structure UserProfileUpdate where
  username : Option Username := none
  age : Option Nat := none
  fullName : Option FullName := none
  phoneNumber : Option String := none
  bio : Option String := none
  companyName : Option String := none

end Payloads

/-- The arguments of `InMemoryUserRepository.create`. -/
structure UserCreateArgs where
  email : String
  username : String
  passwordHash : String
  age : Option Nat := none
  role : String := "user"
  fullName : Option String := none
  phoneNumber : Option String := none
  bio : Option String := none
  companyName : Option String := none
  permissions : Option Nat := none
  nidNumber : Option String := none
  deriving DecidableEq

def ann : UserCreateArgs where
  email := "ann@example.com"
  username := "ann"
  passwordHash := "hash"
  age := some 30

def annCreate : @UserCreate asciiCase :=
  letI := asciiCase
  { email := "ann@example.com"
    username := ⟨"ann", by decide +kernel, by decide +kernel, by decide⟩
    password := "secret"
    age := some 30 }

def bobCreate : @UserCreate asciiCase :=
  letI := asciiCase
  { annCreate with username := ⟨"bob", by decide +kernel, by decide +kernel, by decide⟩ }

/-- The arguments of `InMemoryUserRepository.update`: `none` leaves a field as it is. -/
structure UserChanges where
  email : Option String := none
  username : Option String := none
  age : Option Nat := none
  role : Option String := none
  fullName : Option String := none
  phoneNumber : Option String := none
  bio : Option String := none
  companyName : Option String := none
  passwordHash : Option String := none
  deriving DecidableEq

/-- The fields that `update` assigns. -/
def UserChanges.apply (c : UserChanges) (user : UserEntity) : UserEntity :=
  { user with
    email := c.email.or user.email
    username := c.username.or user.username
    age := c.age.or user.age
    role := c.role.getD user.role
    fullName := c.fullName.or user.fullName
    phoneNumber := c.phoneNumber.or user.phoneNumber
    bio := c.bio.or user.bio
    companyName := c.companyName.or user.companyName
    passwordHash := c.passwordHash.getD user.passwordHash }

/-- `payload.email`, … as the service passes them to `update`: an unset field is `None`. -/
def UserUpdate.changes [PyCase] (payload : UserUpdate) : UserChanges where
  email := payload.email.join
  username := payload.username.join.map Username.text
  age := payload.age.join
  role := payload.role.join.map UserRole.value
  fullName := payload.fullName.join.map FullName.text
  phoneNumber := payload.phoneNumber.join
  bio := payload.bio.join
  companyName := payload.companyName.join

/-- What the optimistic update assigns: every field that is set, `null` too. The role is
`str(None)` then. -/
def UserUpdate.assign [PyCase] (payload : UserUpdate) (user : UserEntity) : UserEntity :=
  { user with
    email := payload.email.getD user.email
    username := (payload.username.map (·.map Username.text)).getD user.username
    age := payload.age.getD user.age
    role := (payload.role.map fun role => (role.map UserRole.value).getD "None").getD user.role
    fullName := (payload.fullName.map (·.map FullName.text)).getD user.fullName
    phoneNumber := payload.phoneNumber.getD user.phoneNumber
    bio := payload.bio.getD user.bio
    companyName := payload.companyName.getD user.companyName
    version := user.version + 1 }

/-- The payload of `update_profile` as one of `update_user`. -/
def UserProfileUpdate.toUpdate [PyCase] (payload : UserProfileUpdate) : UserUpdate where
  username := some payload.username
  age := some payload.age
  fullName := some payload.fullName
  phoneNumber := some payload.phoneNumber
  bio := some payload.bio
  companyName := some payload.companyName

/-! ## Exceptions -/

inductive UserError where
  | userAlreadyExists (message : String)
  | userNotFound (userId : Int)
  | userNameNotFound (username : String)
  | optimisticLock
  | runtimeError (message : String)
  | attributeError
  | redisError
  | integrityError
  /-- `secrets.compare_digest` of a text that is not ASCII. -/
  | typeError
  /-- `int()` of a text that is no number. -/
  | valueError
  | http (status : Nat) (detail : String)
  deriving DecidableEq

/-- `_store`, `_email_index`, `_username_index` and `_current_id`. -/
structure UserDicts where
  store : List (Int × Ref) := []
  emailIndex : List (Option String × Int) := []
  usernameIndex : List (Option String × Int) := []
  currentId : Int := 0
  deriving DecidableEq

structure UserRepository extends UserDicts where
  heap : Heap UserEntity := {}
  views : List (Int × Nat) := []
  deriving DecidableEq

namespace UserRepository

/-- The stored user `id`, as it is now. -/
def entity? (s : UserRepository) (id : Int) : Option UserEntity :=
  (find s.store id).map s.heap.read

/-! ## Reads -/

def getById (s : UserRepository) (userId : Int) : Option Ref := find s.store userId

def getByEmail (s : UserRepository) (email : String) : Option Ref :=
  (find s.emailIndex (some email)).bind s.getById

def getByUsername (s : UserRepository) (username : String) : Option Ref :=
  (find s.usernameIndex (some username)).bind s.getById

def getViews (s : UserRepository) (userId : Int) : Nat := (find s.views userId).getD 0

def getAllIds (s : UserRepository) : List Int := s.store.map Prod.fst

/-! ## Writes -/

def defaultPermissionsOf (role : String) : Nat :=
  if role = "admin" then 63 else if role = "moderator" then 7 else if role = "guest" then 1 else 3

/-- The entity that `create` makes. -/
def newUser (id : Int) (now : Time) (a : UserCreateArgs) : UserEntity where
  id := id
  email := some a.email
  username := some a.username
  passwordHash := a.passwordHash
  isActive := true
  createdAt := now
  age := a.age
  role := a.role
  fullName := a.fullName
  phoneNumber := a.phoneNumber
  bio := a.bio
  companyName := a.companyName
  permissions := a.permissions.getD (defaultPermissionsOf a.role)
  nidNumber := a.nidNumber

def create (s : UserRepository) (now : Time) (a : UserCreateArgs) : Ref × UserRepository :=
  let id := s.currentId + 1
  (s.heap.size,
    { s with
      currentId := id
      heap := s.heap.alloc (newUser id now a)
      store := set s.store id s.heap.size
      emailIndex := set s.emailIndex (some a.email) id
      usernameIndex := set s.usernameIndex (some a.username) id })

/-- An index whose key moves from `old` to `new`, if they differ. -/
def moveKey (index : List (Option String × Int)) (old new : Option String) (id : Int) :
    List (Option String × Int) :=
  if new ≠ old then set (erase index old) new id else index

/-- The attributes of the object `r` become those of `user`; the keys of both indexes follow. -/
def assign (s : UserRepository) (r : Ref) (user : UserEntity) : UserRepository :=
  let old := s.heap.read r
  { s with
    heap := s.heap.write r user
    emailIndex := moveKey s.emailIndex old.email user.email old.id
    usernameIndex := moveKey s.usernameIndex old.username user.username old.id }

def update (s : UserRepository) (userId : Int) (c : UserChanges) : Option Ref × UserRepository :=
  match s.getById userId with
  | none => (none, s)
  | some r => (some r, s.assign r (c.apply (s.heap.read r)))

def updateNid (s : UserRepository) (userId : Int) (nidNumber : Option String) :
    Option Ref × UserRepository :=
  match s.getById userId with
  | none => (none, s)
  | some r =>
    let user := s.heap.read r
    (some r, { s with
      heap := s.heap.write r { user with nidNumber := nidNumber, version := user.version + 1 } })

def updateWithOptimisticLock [PyCase] (s : UserRepository) (userId : Int) (expectedVersion : Nat)
    (data : UserUpdate) : Except UserError Ref × UserRepository :=
  match s.getById userId with
  | none => (.error .optimisticLock, s)
  | some r =>
    let user := s.heap.read r
    if user.version ≠ expectedVersion then (.error .optimisticLock, s)
    else (.ok r, s.assign r (data.assign user))

/-- `update_permissions`: a new object, without the national id. -/
def updatePermissions (s : UserRepository) (userId : Int) (permissions : Nat) :
    Option Ref × UserRepository :=
  match s.getById userId with
  | none => (none, s)
  | some r =>
    let user := s.heap.read r
    let updated := { user with
      version := user.version + 1, permissions := permissions, nidNumber := none }
    (some s.heap.size, { s with
      heap := s.heap.alloc updated, store := set s.store userId s.heap.size })

def delete (s : UserRepository) (userId : Int) : Bool × UserRepository :=
  match s.getById userId with
  | none => (false, s)
  | some r =>
    let user := s.heap.read r
    (true, { s with
      emailIndex := erase s.emailIndex user.email
      usernameIndex := erase s.usernameIndex user.username
      store := erase s.store userId })

/-- One more entry of `views_map` added to the counts. -/
def addViews (views : List (Int × Nat)) (p : Int × Nat) : List (Int × Nat) :=
  set views p.1 ((find views p.1).getD 0 + p.2)

lemma getViews_foldl (viewsMap : List (Int × Nat)) (views : List (Int × Nat)) (id : Int) :
    (find (viewsMap.foldl addViews views) id).getD 0 =
      (find views id).getD 0 + ((viewsMap.filter fun p => p.1 = id).map Prod.snd).sum := by
  induction viewsMap generalizing views with
  | nil => simp
  | cons p viewsMap ih =>
    rw [List.foldl_cons, ih, addViews, find_set]
    by_cases hp : p.1 = id
    · simp [hp]
      omega
    · simp [hp]

def incrementViewsBatch (s : UserRepository) (viewsMap : List (Int × Nat)) : Nat × UserRepository :=
  (viewsMap.length, { s with views := viewsMap.foldl addViews s.views })

end UserRepository

/-! ## Operations -/

section Operations

variable [PyCase]

inductive UserRepoOp where
  | create (now : Time) (a : UserCreateArgs)
  | update (userId : Int) (c : UserChanges) (nidNumber : Option String)
  | updateNid (userId : Int) (nidNumber : Option String)
  | updatePermissions (userId : Int) (permissions : Nat)
  | updateWithOptimisticLock (userId : Int) (expectedVersion : Nat) (data : UserUpdate)

/-- The repository after an operation. Its `update` has no parameter for the national id: a call
with one is a `TypeError`. -/
def UserRepository.call (s : UserRepository) : UserRepoOp → UserRepository
  | .create now a => (s.create now a).2
  | .update userId c none => (s.update userId c).2
  | .update _ _ (some _) => s
  | .updateNid userId nidNumber => (s.updateNid userId nidNumber).2
  | .updatePermissions userId permissions => (s.updatePermissions userId permissions).2
  | .updateWithOptimisticLock userId expectedVersion data =>
    (s.updateWithOptimisticLock userId expectedVersion data).2

end Operations

/-! ## Well-formed stores -/

structure UserDicts.Fits (d : UserDicts) (heap : Heap UserEntity) : Prop where
  lt_size : ∀ id r, (id, r) ∈ d.store → r < heap.size
  id_eq : ∀ id r, (id, r) ∈ d.store → (heap.read r).id = id
  le_currentId : ∀ id r, (id, r) ∈ d.store → id ≤ d.currentId
  distinct : Distinct d.store

namespace UserDicts

lemma fits_empty : ({} : UserDicts).Fits {} where
  lt_size _ _ h := by cases h
  id_eq _ _ h := by cases h
  le_currentId _ _ h := by cases h
  distinct := List.Pairwise.nil

structure Grown (heap heap' : Heap UserEntity) : Prop where
  size_le : heap.size ≤ heap'.size
  id_eq : ∀ r < heap.size, (heap'.read r).id = (heap.read r).id

namespace Grown

lemma refl (heap : Heap UserEntity) : Grown heap heap := ⟨Nat.le_refl _, fun _ _ => rfl⟩

lemma alloc (heap : Heap UserEntity) (user : UserEntity) : Grown heap (heap.alloc user) where
  size_le := by simp
  id_eq r hr := by rw [Heap.read_alloc_of_lt hr]

lemma write {heap : Heap UserEntity} (hid : user.id = (heap.read r).id) :
    Grown heap (heap.write r user) where
  size_le := by simp
  id_eq r' hr' := by
    by_cases h : r' = r
    · subst h
      rw [Heap.read_write_self hr', hid]
    · rw [Heap.read_write_of_ne heap h]

end Grown

variable {d : UserDicts} {heap : Heap UserEntity}

lemma Fits.grow (h : d.Fits heap) (hg : Grown heap heap') : d.Fits heap' where
  lt_size id r hr := Nat.lt_of_lt_of_le (h.lt_size id r hr) hg.size_le
  id_eq id r hr := (hg.id_eq r (h.lt_size id r hr)).trans (h.id_eq id r hr)
  le_currentId := h.le_currentId
  distinct := h.distinct

lemma Fits.reindex (h : d.Fits heap) (emailIndex usernameIndex : List (Option String × Int)) :
    { d with emailIndex := emailIndex, usernameIndex := usernameIndex : UserDicts }.Fits heap :=
  ⟨h.lt_size, h.id_eq, h.le_currentId, h.distinct⟩

lemma Fits.alloc {id n : Int} (h : d.Fits heap) (hid : user.id = id) (hle : id ≤ n)
    (hn : d.currentId ≤ n) :
    { d with store := Assoc.set d.store id heap.size, currentId := n : UserDicts }.Fits
      (heap.alloc user) := by
  have hg := h.grow (.alloc heap user)
  refine ⟨fun id' r hr => ?_, fun id' r hr => ?_, fun id' r hr => ?_, h.distinct.after_set _⟩
  all_goals rcases mem_set hr with ⟨hid', hr⟩ | ⟨hr, -⟩
  · simp_all
  · exact hg.lt_size id' r hr
  · simp_all
  · exact hg.id_eq id' r hr
  · exact (beq_iff_eq.mp hid').trans_le hle
  · exact (h.le_currentId id' r hr).trans hn

end UserDicts

namespace UserRepository

def Ok (s : UserRepository) : Prop := s.toUserDicts.Fits s.heap

variable {s : UserRepository} {id : Int}

lemma ok_empty : ({} : UserRepository).Ok := UserDicts.fits_empty

lemma Ok.lt_size (h : s.Ok) (hr : find s.store id = some r) : r < s.heap.size :=
  UserDicts.Fits.lt_size h id r (mem_of_find hr)

lemma Ok.id_eq (h : s.Ok) (hr : find s.store id = some r) : (s.heap.read r).id = id :=
  UserDicts.Fits.id_eq h id r (mem_of_find hr)

lemma Ok.le_currentId (h : s.Ok) (hr : find s.store id = some r) : id ≤ s.currentId :=
  UserDicts.Fits.le_currentId h id r (mem_of_find hr)

lemma Ok.ne_of_ne (h : s.Ok) (hr : find s.store id = some r) (hr' : find s.store id' = some r')
    (hne : id' ≠ id) : r' ≠ r := by
  rintro rfl
  exact hne ((h.id_eq hr').symm.trans (h.id_eq hr))

lemma entity?_eq_some :
    s.entity? id = some e ↔ ∃ r, find s.store id = some r ∧ s.heap.read r = e := by
  simp [entity?]

lemma entity?_of_find (hr : find s.store id = some r) : s.entity? id = some (s.heap.read r) := by
  rw [entity?, hr, Option.map_some]

lemma entity?_of_find_none (hr : find s.store id = none) : s.entity? id = none := by
  rw [entity?, hr, Option.map_none]

lemma Ok.entity?_id (h : s.Ok) (he : s.entity? id = some e) : e.id = id := by
  obtain ⟨r, hr, rfl⟩ := entity?_eq_some.mp he
  exact h.id_eq hr

lemma Ok.entity?_le (h : s.Ok) (he : s.entity? id = some e) : id ≤ s.currentId := by
  obtain ⟨r, hr, -⟩ := entity?_eq_some.mp he
  exact h.le_currentId hr

/-! ## What the calls do to the users -/

/-- A new object at the user `id`. -/
lemma Ok.entity?_alloc (h : s.Ok) (id : Int) (user : UserEntity) (id' : Int) :
    (find (set s.store id s.heap.size) id').map (s.heap.alloc user).read =
      if id' = id then some user else s.entity? id' := by
  rw [find_set]
  by_cases hid : id' = id
  · simp [hid]
  · rw [beq_eq_false_iff_ne.mpr (Ne.symm hid), if_neg Bool.false_ne_true, if_neg hid, entity?]
    cases hr : find s.store id' with
    | none => rfl
    | some => simp [Heap.read_alloc_of_lt (h.lt_size hr)]

/-- The object of the user `id`, written in place. -/
lemma Ok.entity?_write (h : s.Ok) (hr : find s.store id = some r) (user : UserEntity) (id' : Int) :
    (find s.store id').map (s.heap.write r user).read =
      if id' = id then some user else s.entity? id' := by
  by_cases hid : id' = id
  · subst hid
    simp [hr, Heap.read_write_self (h.lt_size hr)]
  · rw [if_neg hid, entity?]
    cases hr' : find s.store id' with
    | none => rfl
    | some => simp [Heap.read_write_of_ne s.heap (h.ne_of_ne hr hr' hid)]

lemma entity?_absent (hr : find s.store userId = none) (f : UserEntity → UserEntity) (id : Int) :
    s.entity? id = if id = userId then (s.entity? id).map f else s.entity? id := by
  by_cases hid : id = userId <;> simp [entity?, hid, hr]

lemma entity?_changed (hr : find s.store userId = some r) (f : UserEntity → UserEntity) (id : Int) :
    (if id = userId then some (f (s.heap.read r)) else s.entity? id) =
      if id = userId then (s.entity? id).map f else s.entity? id := by
  by_cases hid : id = userId <;> simp [entity?, hid, hr]

lemma Ok.entity?_create (h : s.Ok) (now : Time) (a : UserCreateArgs) (id' : Int) :
    (s.create now a).2.entity? id' =
      if id' = s.currentId + 1 then some (newUser (s.currentId + 1) now a) else s.entity? id' :=
  h.entity?_alloc _ _ id'

lemma Ok.entity?_assign (h : s.Ok) (hr : find s.store id = some r) (user : UserEntity) (id' : Int) :
    (s.assign r user).entity? id' = if id' = id then some user else s.entity? id' :=
  h.entity?_write hr user id'

lemma Ok.entity?_update (h : s.Ok) (id : Int) : (s.update userId c).2.entity? id =
      if id = userId then (s.entity? id).map c.apply else s.entity? id := by
  unfold UserRepository.update getById
  cases hr : find s.store userId with
  | none => exact entity?_absent hr _ id
  | some => exact (h.entity?_assign hr _ id).trans (entity?_changed hr _ id)

lemma Ok.entity?_updateWithOptimisticLock [PyCase] (h : s.Ok) (userId : Int)
    (expectedVersion : Nat) (data : UserUpdate) (id : Int) :
    (s.updateWithOptimisticLock userId expectedVersion data).2.entity? id =
      if id = userId then (s.entity? id).map fun user =>
        if user.version = expectedVersion then data.assign user else user
      else s.entity? id := by
  unfold UserRepository.updateWithOptimisticLock getById
  cases hr : find s.store userId with
  | none => exact entity?_absent hr _ id
  | some r =>
    rw [← entity?_changed hr]
    by_cases hv : (s.heap.read r).version = expectedVersion
    · simpa [hv] using h.entity?_assign hr _ id
    · by_cases hid : id = userId <;> simp [entity?, hid, hr, hv]

lemma Ok.entity?_updateNid (h : s.Ok) (userId : Int) (nidNumber : Option String) (id' : Int) :
    (s.updateNid userId nidNumber).2.entity? id' =
      if id' = userId then (s.entity? id').map fun user =>
        { user with nidNumber := nidNumber, version := user.version + 1 }
      else s.entity? id' := by
  unfold updateNid getById
  cases hr : find s.store userId with
  | none => exact entity?_absent hr _ id'
  | some =>
    rw [← entity?_changed hr]
    exact h.entity?_write hr _ id'

lemma Ok.entity?_updatePermissions (h : s.Ok) (userId : Int) (permissions : Nat) (id' : Int) :
    (s.updatePermissions userId permissions).2.entity? id' =
      if id' = userId then (s.entity? id').map fun user =>
        { user with version := user.version + 1, permissions := permissions, nidNumber := none }
      else s.entity? id' := by
  unfold updatePermissions getById
  cases hr : find s.store userId with
  | none => exact entity?_absent hr _ id'
  | some =>
    rw [← entity?_changed hr]
    exact h.entity?_alloc userId _ id'

lemma entity?_delete (s : UserRepository) (userId id' : Int) :
    (s.delete userId).2.entity? id' = if id' = userId then none else s.entity? id' := by
  unfold delete getById
  cases hr : find s.store userId with
  | none => by_cases hid : id' = userId <;> simp [entity?, hid, hr]
  | some => by_cases hid : id' = userId <;> simp [entity?, hid, find_erase, Ne.symm]

/-! ## Every call keeps the store well formed -/

lemma Ok.create (h : s.Ok) (now : Time) (a : UserCreateArgs) : (s.create now a).2.Ok := by
  have hnew : (newUser (s.currentId + 1) now a).id = s.currentId + 1 := rfl
  exact (UserDicts.Fits.alloc h hnew (Int.le_refl _) (Int.le_add_one (Int.le_refl _))).reindex _ _

lemma Ok.assign (h : s.Ok) (hid : user.id = (s.heap.read r).id) : (s.assign r user).Ok :=
  (UserDicts.Fits.grow h (.write hid)).reindex _ _

lemma Ok.update (h : s.Ok) (userId : Int) (c : UserChanges) : (s.update userId c).2.Ok := by
  unfold UserRepository.update
  split
  · exact h
  · exact h.assign rfl

lemma Ok.updateNid (h : s.Ok) (userId : Int) (nidNumber : Option String) :
    (s.updateNid userId nidNumber).2.Ok := by
  unfold UserRepository.updateNid
  split
  · exact h
  · exact UserDicts.Fits.grow h (.write rfl)

lemma Ok.updateWithOptimisticLock [PyCase] (h : s.Ok) (userId : Int) (expectedVersion : Nat)
    (data : UserUpdate) : (s.updateWithOptimisticLock userId expectedVersion data).2.Ok := by
  unfold UserRepository.updateWithOptimisticLock
  split
  · exact h
  · dsimp only
    split
    · exact h
    · exact h.assign rfl

lemma Ok.updatePermissions (h : s.Ok) (userId : Int) (permissions : Nat) :
    (s.updatePermissions userId permissions).2.Ok := by
  unfold UserRepository.updatePermissions getById
  cases hr : find s.store userId with
  | none => exact h
  | some => exact UserDicts.Fits.alloc h (h.id_eq hr) (h.le_currentId hr) (Int.le_refl _)

lemma Ok.delete (h : s.Ok) (userId : Int) : (s.delete userId).2.Ok := by
  unfold UserRepository.delete
  split
  · exact h
  · have hsub : ∀ p ∈ erase s.store userId, p ∈ s.store := fun p hp =>
      (List.mem_filter.mp hp).1
    exact ⟨fun id' r' hr' => UserDicts.Fits.lt_size h id' r' (hsub _ hr'),
      fun id' r' hr' => UserDicts.Fits.id_eq h id' r' (hsub _ hr'),
      fun id' r' hr' => UserDicts.Fits.le_currentId h id' r' (hsub _ hr'),
      h.distinct.after_erase⟩

lemma Ok.call [PyCase] (h : s.Ok) (op : UserRepoOp) : (s.call op).Ok := by
  cases op with
  | create now a => exact h.create now a
  | update userId c nidNumber =>
    cases nidNumber with
    | none => exact h.update userId c
    | some => exact h
  | updateNid userId nidNumber => exact h.updateNid userId nidNumber
  | updatePermissions userId permissions => exact h.updatePermissions userId permissions
  | updateWithOptimisticLock userId expectedVersion data =>
    exact h.updateWithOptimisticLock userId expectedVersion data

end UserRepository

end CleanArch
