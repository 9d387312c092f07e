import CleanArch.Assoc.Inverse
import CleanArch.Async.Rely
import CleanArch.Users.Requests

/-!
# Unique emails and user names

Any number of calls of the user service on one repository, interleaved at their requests. The email
and user-name indexes should stay the inverses of the store (`Identities`). The service checks that
an email and a user name are free some requests before it writes them, so another call can take them
in between.
-/

namespace CleanArch

open Assoc Async Function Objects Prog Protocol Steps Sys UserDb UserRepository UserWorld

/-- The stored users that `d` shows. -/
def UserDicts.users (d : UserDicts) (heap : Heap UserEntity) (id : Int) : Option UserEntity :=
  (find d.store id).map heap.read

structure UserDicts.Indexed (d : UserDicts) (users : Int → Option UserEntity) : Prop where
  email : Inverse UserEntity.email users (find d.emailIndex)
  username : Inverse UserEntity.username users (find d.usernameIndex)

structure Identities (s : UserRepository) : Prop where
  distinct : ∀ id id' user user', s.entity? id = some user → s.entity? id' = some user' →
    id ≠ id' → user.email ≠ user'.email ∧ user.username ≠ user'.username
  email : ∀ k id, find s.emailIndex k = some id ↔ ∃ user, s.entity? id = some user ∧ user.email = k
  username : ∀ k id,
    find s.usernameIndex k = some id ↔ ∃ user, s.entity? id = some user ∧ user.username = k

lemma identities_iff_indexed (s : UserRepository) :
    Identities s ↔ s.toUserDicts.Indexed s.entity? := by
  constructor
  · exact fun h => ⟨h.email, h.username⟩
  · intro h
    refine ⟨fun id id' user user' hu hu' hne => ⟨fun hk => ?_, fun hk => ?_⟩, h.email, h.username⟩
    · exact hne (h.email.eq_of_key_eq hu hu' hk)
    · exact hne (h.username.eq_of_key_eq hu hu' hk)

lemma identities_empty : Identities {} := by
  constructor <;> intro k id <;> simp [UserRepository.entity?, find]

/-! ## Free keys -/

/-- The email and the user name of `new` are free, or those that `old` has. -/
def UserDicts.FreeFor (d : UserDicts) (old new : UserEntity) : Prop :=
  (new.email = old.email ∨ find d.emailIndex new.email = none) ∧
    (new.username = old.username ∨ find d.usernameIndex new.username = none)

/-- The write takes only keys that are free. A rollback finds the users of its snapshot with the
keys that they had. -/
def RepoCmd.KeysFree [PyCase] (db : UserDb) : RepoCmd → Prop
  | .create a =>
    find db.users.emailIndex (some a.email) = none ∧
      find db.users.usernameIndex (some a.username) = none
  | .update userId c => ∀ user, db.users.entity? userId = some user →
      db.users.FreeFor user (c.apply user)
  | .updateWithOptimisticLock userId expectedVersion data => ∀ user,
      db.users.entity? userId = some user → user.version = expectedVersion →
      db.users.FreeFor user (data.assign user)
  | .aexit uow true => ∀ d, db.snapshots uow = some d → ∀ id user,
      d.users.users db.users.heap id = some user →
      find d.users.emailIndex user.email = some id ∧
        find d.users.usernameIndex user.username = some id
  | _ => True

namespace UserRepository

variable (index : List (Option String × Int))

lemma find_setKey (key k : Option String) (id : Int) :
    find (set index key id) k = if key = k then some id else find index k := by
  by_cases h : key = k <;> simp [h, find_set]

lemma find_eraseKey : find (erase index key) k = if key = k then none else find index k := by
  by_cases h : key = k <;> simp [h, find_erase]

lemma find_moveKey (id : Int) : find (moveKey index old new id) k = if new = old then find index k
      else if new = k then some id else if old = k then none else find index k := by
  unfold moveKey
  by_cases h : new = old
  · rw [if_neg (not_not_intro h), if_pos h]
  · rw [if_pos h, if_neg h, find_setKey, find_eraseKey]

lemma Ok.identities_create (h : s.Ok) (hid : Identities s) (now : Time) (a : UserCreateArgs) :
    Identities (s.create now a).2 ↔
      find s.emailIndex (some a.email) = none ∧ find s.usernameIndex (some a.username) = none := by
  rw [identities_iff_indexed] at hid ⊢
  have hnew : s.entity? (s.currentId + 1) = none := by
    cases he : s.entity? (s.currentId + 1) with
    | none => rfl
    | some =>
      have := h.entity?_le he
      omega
  have hemail : Inverse UserEntity.email (s.create now a).2.entity?
      (find (s.create now a).2.emailIndex) ↔ find s.emailIndex (some a.email) = none :=
    hid.email.insert_iff hnew (h.entity?_create now a) fun k => find_setKey _ _ k _
  have husername : Inverse UserEntity.username (s.create now a).2.entity?
      (find (s.create now a).2.usernameIndex) ↔ find s.usernameIndex (some a.username) = none :=
    hid.username.insert_iff hnew (h.entity?_create now a) fun k => find_setKey _ _ k _
  exact ⟨fun h' => ⟨hemail.mp h'.email, husername.mp h'.username⟩,
    fun h' => ⟨hemail.mpr h'.1, husername.mpr h'.2⟩⟩

lemma Ok.identities_assign (h : s.Ok) (hid : Identities s) {id : Int}
    (hr : find s.store id = some r) (user : UserEntity) :
    Identities (s.assign r user) ↔ s.toUserDicts.FreeFor (s.heap.read r) user := by
  rw [identities_iff_indexed] at hid ⊢
  have he : s.entity? id = some (s.heap.read r) := by simp [entity?, hr]
  -- the key that the index moves is the id of the object
  have hemail : Inverse UserEntity.email (s.assign r user).entity?
      (find (s.assign r user).emailIndex) ↔ _ :=
    hid.email.move_iff he (h.entity?_assign hr user) fun k => by
      rw [← h.id_eq hr]
      exact find_moveKey _ _
  have husername : Inverse UserEntity.username (s.assign r user).entity?
      (find (s.assign r user).usernameIndex) ↔ _ :=
    hid.username.move_iff he (h.entity?_assign hr user) fun k => by
      rw [← h.id_eq hr]
      exact find_moveKey _ _
  exact ⟨fun h' => ⟨hemail.mp h'.email, husername.mp h'.username⟩,
    fun h' => ⟨hemail.mpr h'.1, husername.mpr h'.2⟩⟩

lemma identities_congr (hid : Identities s) (hemail : s'.emailIndex = s.emailIndex)
    (husername : s'.usernameIndex = s.usernameIndex)
    (hkeys : ∀ id, (s'.entity? id).map (fun u => (u.email, u.username)) =
      (s.entity? id).map fun u => (u.email, u.username)) : Identities s' := by
  rw [identities_iff_indexed] at hid ⊢
  refine ⟨?_, ?_⟩
  · rw [hemail]
    refine hid.email.congr fun id => ?_
    have := congrArg (Option.map Prod.fst) (hkeys id)
    simpa [comp_def] using this
  · rw [husername]
    refine hid.username.congr fun id => ?_
    have := congrArg (Option.map Prod.snd) (hkeys id)
    simpa [comp_def] using this

lemma identities_delete (hid : Identities s) (userId : Int) : Identities (s.delete userId).2 := by
  cases hr : find s.store userId with
  | none => simpa [delete, getById, hr] using hid
  | some r =>
    rw [identities_iff_indexed] at hid ⊢
    have he : s.entity? userId = some (s.heap.read r) := by simp [entity?, hr]
    refine ⟨hid.email.remove he (entity?_delete s userId) fun k => ?_,
      hid.username.remove he (entity?_delete s userId) fun k => ?_⟩
    all_goals simp only [delete, getById, hr, find_eraseKey]

lemma identities_of_map (hid : Identities s)
    (he : ∀ id, s'.entity? id = if id = userId then (s.entity? id).map f else s.entity? id)
    (hkeys : ∀ u, (f u).email = u.email ∧ (f u).username = u.username)
    (hemail : s'.emailIndex = s.emailIndex) (husername : s'.usernameIndex = s.usernameIndex) :
    Identities s' := by
  refine identities_congr hid hemail husername fun id => ?_
  rw [he]
  split
  · simp [comp_def, hkeys]
  · rfl

lemma Ok.identities_updateNid (h : s.Ok) (hid : Identities s) (userId : Int)
    (nidNumber : Option String) : Identities (s.updateNid userId nidNumber).2 := by
  refine identities_of_map hid (h.entity?_updateNid userId nidNumber) (fun _ => ⟨rfl, rfl⟩) ?_ ?_
  all_goals
    unfold UserRepository.updateNid
    split <;> rfl

lemma Ok.identities_updatePermissions (h : s.Ok) (hid : Identities s) (userId : Int)
    (permissions : Nat) : Identities (s.updatePermissions userId permissions).2 := by
  refine identities_of_map hid (h.entity?_updatePermissions userId permissions)
    (fun _ => ⟨rfl, rfl⟩) ?_ ?_
  all_goals
    unfold UserRepository.updatePermissions
    split <;> rfl

lemma identities_setPasswordHash (hid : Identities s) (r : Ref) (hash : String) :
    Identities (s.setPasswordHash r hash) := by
  refine identities_congr hid rfl rfl fun id => ?_
  have hkeys := Heap.key_read_write (fun user : UserEntity => (user.email, user.username))
    s.heap r (a := { s.heap.read r with passwordHash := hash }) rfl
  simp only [setPasswordHash, entity?, Option.map_map]
  exact Option.map_congr fun r' _ => hkeys r'

end UserRepository

/-! ## Snapshots -/

/-- A copy of the dictionaries, whose indexes were exact when it was made: the users can have
changed in place since. -/
structure UserDicts.Copied (d : UserDicts) (heap : Heap UserEntity) : Prop where
  fits : d.Fits heap
  indexed : ∃ users, (∀ id, (users id).isSome = (find d.store id).isSome) ∧ d.Indexed users

structure UserDb.Ok (db : UserDb) : Prop where
  users : db.users.Ok
  snapshots : ∀ uow d, db.snapshots uow = some d → d.users.Copied db.users.heap

lemma UserDb.Ok.identities_restore {db : UserDb} (h : db.Ok) (hd : db.snapshots uow = some d) :
    Identities { db.users with toUserDicts := d.users } ↔
      ∀ id user, d.users.users db.users.heap id = some user →
        find d.users.emailIndex user.email = some id ∧
          find d.users.usernameIndex user.username = some id := by
  obtain ⟨users, hdom, hidx⟩ := (h.snapshots uow d hd).indexed
  have hdom' : ∀ id, (d.users.users db.users.heap id).isSome = (users id).isSome := by
    intro id
    rw [hdom, UserDicts.users, Option.isSome_map]
  rw [identities_iff_indexed]
  constructor
  · intro hix id user hu
    exact ⟨hix.email.find_key hu, hix.username.find_key hu⟩
  · intro hkeys
    exact ⟨(hidx.email.reread_iff hdom').mpr fun id user hu => (hkeys id user hu).1,
      (hidx.username.reread_iff hdom').mpr fun id user hu => (hkeys id user hu).2⟩

section Requests

variable [PyCase] {db : UserDb}

open UserDicts (Grown)

lemma RepoCmd.grown (o : UserAnswer) (db : UserDb) (c : RepoCmd) :
    Grown db.users.heap (c.exec o db).2.users.heap := by
  cases c with
  | create => exact .alloc _ _
  | update =>
    simp only [RepoCmd.exec, onUsers, UserRepository.update]
    split
    · exact .refl _
    · exact .write rfl
  | updateNid =>
    simp only [RepoCmd.exec, onUsers, UserRepository.updateNid]
    split
    · exact .refl _
    · exact .write rfl
  | updatePermissions =>
    simp only [RepoCmd.exec, onUsers, UserRepository.updatePermissions]
    split
    · exact .refl _
    · exact .alloc _ _
  | updateWithOptimisticLock =>
    simp only [RepoCmd.exec, onUsers, UserRepository.updateWithOptimisticLock]
    split
    · exact .refl _
    · split
      · exact .refl _
      · exact .write rfl
  | delete =>
    simp only [RepoCmd.exec, onUsers, UserRepository.delete]
    split <;> exact .refl _
  | aexit uow raised =>
    cases raised with
    | false => exact .refl _
    | true =>
      simp only [RepoCmd.exec, onUow, InMemoryUnitOfWork.aexit, if_true,
        InMemoryUnitOfWork.rollback]
      split <;> exact .refl _
  | setPasswordHash => exact .write rfl
  | _ => exact .refl _

lemma UserDb.users_rollback (db : UserDb) :
    ((RepoCmd.aexit uow true).exec o db).2.users = match db.snapshots uow with
      | none => db.users
      | some d => { db.users with toUserDicts := d.users } := by
  simp only [RepoCmd.exec, onUow, InMemoryUnitOfWork.aexit, if_true, InMemoryUnitOfWork.rollback]
  split <;> simp_all [Memory.restore]

/-- The snapshots after a request: none for the unit of work that ends, the current dictionaries
for the one that starts. -/
lemma RepoCmd.snapshots_exec (o : UserAnswer) (db : UserDb) (c : RepoCmd) (uow : Nat)
    (d : MemorySnapshot) (hd : (c.exec o db).2.snapshots uow = some d) :
    db.snapshots uow = some d ∨ (c = .aenter uow ∧ d = db.toMemory.snapshot) := by
  cases c with
  | aenter u =>
    by_cases hu : uow = u
    · subst hu
      simp [RepoCmd.exec, onUow, InMemoryUnitOfWork.aenter] at hd
      exact .inr ⟨rfl, hd.symm⟩
    · exact .inl (by simpa [RepoCmd.exec, onUow, hu] using hd)
  | commit u =>
    by_cases hu : uow = u
    · simp [RepoCmd.exec, onUow, InMemoryUnitOfWork.commit, hu] at hd
    · exact .inl (by simpa [RepoCmd.exec, onUow, hu] using hd)
  | aexit u =>
    by_cases hu : uow = u
    · simp [RepoCmd.exec, onUow, InMemoryUnitOfWork.aexit, hu] at hd
    · exact .inl (by simpa [RepoCmd.exec, onUow, hu] using hd)
  | _ => exact .inl hd

lemma UserDb.Ok.users_exec (h : db.Ok) (o : UserAnswer) (c : RepoCmd) :
    (c.exec o db).2.users.Ok := by
  cases c with
  | aexit uow raised =>
    cases raised with
    | false => exact h.users
    | true =>
      rw [users_rollback]
      split
      · exact h.users
      · next d hd => exact (h.snapshots uow d hd).fits
  | _ => exact h.users.exec o rfl

lemma UserDb.Ok.exec (h : db.Ok) (hid : Identities db.users) (o : UserAnswer) (c : RepoCmd) :
    (c.exec o db).2.Ok := by
  refine ⟨h.users_exec o c, fun uow d hd => ?_⟩
  have hg := c.grown o db
  rcases c.snapshots_exec o db uow d hd with hd | ⟨rfl, rfl⟩
  · have hc := h.snapshots uow d hd
    exact ⟨hc.fits.grow hg, hc.indexed⟩
  · refine ⟨UserDicts.Fits.grow h.users hg, db.users.entity?, fun id => ?_,
      (identities_iff_indexed _).mp hid⟩
    simp [UserRepository.entity?, Memory.snapshot]

lemma UserDb.Ok.identities_exec (h : db.Ok) (hid : Identities db.users) (o : UserAnswer)
    (c : RepoCmd) : Identities (c.exec o db).2.users ↔ c.KeysFree db := by
  cases c with
  | create a => exact h.users.identities_create hid o.now a
  | update userId =>
    simp only [RepoCmd.exec, onUsers, UserRepository.update, UserRepository.getById,
      RepoCmd.KeysFree]
    cases hr : find db.users.store userId with
    | none => simpa [UserRepository.entity?, hr] using hid
    | some => simpa [UserRepository.entity?, hr] using h.users.identities_assign hid hr _
  | updateWithOptimisticLock userId expectedVersion =>
    simp only [RepoCmd.exec, onUsers, UserRepository.updateWithOptimisticLock,
      UserRepository.getById, RepoCmd.KeysFree]
    cases hr : find db.users.store userId with
    | none => simpa [UserRepository.entity?, hr] using hid
    | some r =>
      by_cases hv : (db.users.heap.read r).version = expectedVersion
      · simpa [UserRepository.entity?, hr, hv] using h.users.identities_assign hid hr _
      · simpa [UserRepository.entity?, hr, hv] using hid
  | updateNid userId nidNumber =>
    exact iff_of_true (h.users.identities_updateNid hid userId (some nidNumber)) trivial
  | updatePermissions userId permissions =>
    exact iff_of_true (h.users.identities_updatePermissions hid userId permissions) trivial
  | delete userId => exact iff_of_true (identities_delete hid userId) trivial
  | setPasswordHash r hash =>
    exact iff_of_true (identities_setPasswordHash hid r hash) trivial
  | aexit uow raised =>
    cases raised with
    | false => exact iff_of_true hid trivial
    | true =>
      rw [users_rollback]
      simp only [RepoCmd.KeysFree]
      cases hd : db.snapshots uow with
      | none => simpa using hid
      | some => simpa using h.identities_restore hd
  | _ => exact iff_of_true hid trivial

end Requests

/-! ## Runs -/

section Runs

variable [PyCase] [Sha256]

@[reducible] def userSys (calls : Tid → UserDeps × UserCall) : Sys where
  toMachine := userMachine
  Env := UserExpiry
  env e s := e.exec s
  A := Unit
  prog t := (calls t).2.prog (calls t).1
  loc _ := ()

variable {calls : Tid → UserDeps × UserCall}

/-- The next request of a call finds its keys free. -/
def KeysFree (c : (userSys calls).Config) : (userSys calls).Event → Prop
  | .turn t _ => ∀ cmd, (c.thr t).2.next? = some (.repo cmd) → cmd.KeysFree c.sh.db
  | .world _ => True

lemma step_identities (c : (userSys calls).Config) (hok : c.sh.db.Ok)
    (hid : Identities c.sh.db.users) :
    (step c e).sh.db.Ok ∧ (Identities (step c e).sh.db.users ↔ KeysFree c e) := by
  cases e with
  | world e => cases e <;> exact ⟨hok, iff_of_true hid trivial⟩
  | turn t o =>
    rcases (c.thr t).2.ended_or_awaits with hn | ⟨r, k, hp⟩
    · rw [step_ended hn]
      refine ⟨hok, iff_of_true hid fun cmd hcmd => ?_⟩
      rw [hn] at hcmd
      cases hcmd
    · have hnext : (c.thr t).2.next? = some r := by
        rw [hp]
        rfl
      rw [step_await hp]
      simp only [KeysFree, hnext, Option.some.injEq]
      cases r with
      | repo cmd =>
        refine ⟨hok.exec hid o cmd, (hok.identities_exec hid o cmd).trans ?_⟩
        exact ⟨fun h cmd' hcmd => by cases hcmd; exact h, fun h => h cmd rfl⟩
      | _ => exact ⟨hok, iff_of_true hid fun cmd hcmd => by cases hcmd⟩

/-- The indexes are the inverses of the store in every state of a run if and only if every write
and every rollback of the run finds its keys free. -/
theorem identities_iff (calls : Tid → UserDeps × UserCall) (w : UserWorld) (hok : w.db.users.Ok)
    (hid : Identities w.db.users) (hopen : ∀ uow, w.db.snapshots uow = none)
    (es : List (userSys calls).Event) :
    Always step (fun c : (userSys calls).Config => Identities c.sh.db.users) (start w) es ↔
      Along step KeysFree (start (S := userSys calls) w) es := by
  have hstart : w.db.Ok := by
    refine ⟨hok, fun uow d hd => ?_⟩
    rw [hopen] at hd
    cases hd
  refine always_iff_along (I := fun c => c.sh.db.Ok) ?_ ?_ hstart hid
  · exact fun c e hok hid => (step_identities c hok hid).1
  · exact fun c e hok hid => (step_identities c hok hid).2

/-! ### One call after another -/

/-- Whenever a call takes a step, every other one has ended or has not started. -/
def OneByOne (c : (userSys calls).Config) : (userSys calls).Event → Prop
  | .turn t _ => ∀ u, u ≠ t → (c.thr u).2 = (userSys calls).prog u ∨ (c.thr u).2.next? = none
  | .world _ => True

/-- Call `t` alone. -/
@[reducible] def aloneProtocol (t : Tid) : Protocol userMachine where
  inv w := w.db.Ok ∧ Identities w.db.users
  rely u w w' := u = t → w'.db = w.db
  refl _ _ _ := rfl
  trans _ _ _ _ h h' ht := (h' ht).trans (h ht)

/-- A request that needs no free key. -/
def Keyless (c : UserCmd) : Prop := ∀ cmd, c = .repo cmd → ∀ db, cmd.KeysFree db

omit [Sha256] in
lemma basic_keyless : Basic Keyless where
  repo c hc cmd h db := by
    cases h
    cases c with
    | getById | getByEmail | getByUsername | read => trivial
    | _ => cases hc
  trieInsert _ _ _ _ h := by cases h
  trieDelete _ _ h := by cases h
  bloomContains _ _ h := by cases h
  redis _ _ h := by cases h
  outside _ _ h := by cases h

variable {t : Tid} {w : UserWorld}

lemma aloneProtocol_keeps {c : UserCmd} (o : UserAnswer) (hi : (aloneProtocol t).inv w)
    (hfree : ∀ cmd, c = .repo cmd → cmd.KeysFree w.db) : (aloneProtocol t).Keeps t c o () w := by
  refine ⟨trivial, ?_, fun u hu ht => absurd ht hu⟩
  cases c with
  | repo cmd =>
    exact ⟨hi.1.exec hi.2 o cmd, (hi.1.identities_exec hi.2 o cmd).mpr (hfree cmd rfl)⟩
  | _ => exact hi

lemma wp_keyless {α : Type} {p : UserProg α} (hp : p.Only Keyless) :
    (aloneProtocol t).wp t p (fun _ _ _ => True) () w := by
  refine wp_mono (wp_within (I := fun _ _ => True) (fun _ _ _ _ _ => trivial) ?_ hp trivial)
    fun _ _ _ _ _ => trivial
  exact fun c o _ w hc hi _ _ =>
    ⟨aloneProtocol_keeps o hi fun cmd h => hc cmd h w.db, trivial, fun _ _ => trivial⟩

omit [PyCase] [Sha256] in
/-- A key without a user is in no exact index. -/
lemma index_free {s : UserRepository} {index : List (Option String × Int)}
    {key : UserEntity → Option String} {k : Option String}
    (hindex : ∀ k id, find index k = some id ↔ ∃ user, s.entity? id = some user ∧ key user = k)
    (h : ¬ ((find index k).bind s.getById).isSome = true) : find index k = none := by
  by_contra hk
  obtain ⟨id, hid⟩ := Option.ne_none_iff_exists'.mp hk
  obtain ⟨user, hu, -⟩ := (hindex k id).mp hid
  cases hr : find s.store id <;> simp_all [entity?, getById]

/-- A registration alone: no request comes between its checks and its write. -/
lemma wp_registerUser (deps : UserDeps) (payload : UserCreate) :
    (aloneProtocol t).wp t ((UserCall.registerUser payload).prog deps) (fun _ _ _ => True) () w := by
  have hQ : ∀ {α : Type}, (aloneProtocol t).Stable t
      fun (_ : Except UserError α) (_ : Unit) (_ : UserWorld) => True := fun _ _ _ _ _ _ => trivial
  have hb := basic_keyless
  have hread : ∀ {c : RepoCmd} {w}, c.reads = true →
      ∀ cmd, UserCmd.repo c = .repo cmd → cmd.KeysFree w := fun hc cmd h => hb.repo _ hc cmd h _
  simp only [UserCall.prog, registerUser, refuseDuplicate, refuseTaken, bind_eq, bind_assoc]
  refine hQ.call_bind fun w1 o _ hi _ => ⟨aloneProtocol_keeps o hi (hread rfl), ?_⟩
  refine hQ.raiseIf_bind (fun hemail => ?_) fun _ => trivial
  refine hQ.call_bind fun w2 o hr hi _ => ⟨aloneProtocol_keeps o hi (hread rfl), ?_⟩
  refine hQ.raiseIf_bind (fun husername => ?_) fun _ => trivial
  refine hQ.call_bind fun w3 o hr' hi _ => ⟨aloneProtocol_keeps o hi (fun _ h => by cases h), ?_⟩
  refine hQ.call_bind fun w4 o' hr'' hi _ => ⟨aloneProtocol_keeps o' hi (fun cmd h => ?_), ?_⟩
  · cases h
    have h2 : w4.db = w2.db := (hr'' rfl).trans (hr' rfl)
    have h1 : w4.db = w1.db := h2.trans (hr rfl)
    exact ⟨index_free hi.2.email (h1 ▸ hemail), index_free hi.2.username (h2 ▸ husername)⟩
  · refine wp_keyless (within_call_bind (hb.repo _ rfl) fun user => ?_)
    refine within_bind (within_indexUserInTrie hb user) fun _ => ?_
    refine within_bind (within_ite (fun _ => ?_) fun _ => trivial) fun _ => ?_
    · exact within_call fun _ h => by cases h
    · exact within_call_bind (hb.outside _) fun _ => trivial

/-- Registrations, and calls whose writes need no free key, meet the condition when they run one
after another. -/
lemma keysFree_of_oneByOne (hcalls : ∀ t, (∃ payload, (calls t).2 = .registerUser payload) ∨
      ∀ c, (calls t).2.Writes c → ∀ db, c.KeysFree db)
    (hw : w.db.Ok ∧ Identities w.db.users) {es : List (userSys calls).Event}
    (hes : Along step OneByOne (start (S := userSys calls) w) es) :
    Along step KeysFree (start (S := userSys calls) w) es := by
  have hstart : ∀ t w, (aloneProtocol t).wp t ((userSys calls).prog t)
      (fun _ _ _ => True) () w := by
    intro t w
    show (aloneProtocol t).wp t ((calls t).2.prog (calls t).1) _ _ _
    rcases hcalls t with ⟨payload, hcall⟩ | hwrites
    · rw [hcall]
      exact wp_registerUser _ payload
    · refine wp_keyless ((within_prog (calls t).1 (calls t).2).mono ?_)
      rintro c hc cmd rfl db
      exact hc.elim (fun hc => basic_keyless.repo cmd hc cmd rfl db) fun hc => hwrites cmd hc db
  refine Always.along (fun c e h h' => (step_identities c h.1.1 h.1.2).2.mp h'.1.2)
    (hes.invariant (P := fun c => (c.sh.db.Ok ∧ Identities c.sh.db.users) ∧
      ∀ t, (aloneProtocol t).wp t (c.thr t).2 (fun _ _ _ => True) () c.sh) ?_
      ⟨hw, fun t => hstart t w⟩)
  intro c e ⟨hi, hwp⟩ he
  cases e with
  | world e =>
    exact ⟨by cases e <;> exact hi, fun t => wp_stable (hwp t) fun _ => by cases e <;> rfl⟩
  | turn t o =>
    rcases (c.thr t).2.ended_or_awaits with hn | ⟨r, k, hp⟩
    · rw [step_ended hn]
      exact ⟨hi, hwp⟩
    have ht := hwp t
    rw [hp] at ht
    obtain ⟨hk, hnext⟩ := ht c.sh o (fun _ => rfl) hi trivial
    refine ⟨by rw [step_await hp]; exact hk.inv, fun u => ?_⟩
    by_cases hu : u = t
    · subst hu
      rw [step_await hp]
      simpa using hnext
    · -- another call has not started, or has ended
      rw [step_thr hu]
      rcases he u hu with hprog | hended
      · rw [hprog]
        exact hstart u _
      · cases hp' : (c.thr u).2 with
        | ret | raise => exact fun _ _ _ => trivial
        | await =>
          rw [hp'] at hended
          cases hended

end Runs

def annAndBob (t : Tid) : UserDeps × @UserCall asciiCase :=
  ({}, @UserCall.registerUser asciiCase (if t = 0 then annCreate else bobCreate))

def checkThenCreate : List (@userSys asciiCase zeroDigest annAndBob).Event :=
  [.turn 0 {}, .turn 0 {}, .turn 0 {}, .turn 1 {}, .turn 1 {}, .turn 1 {}, .turn 0 {}, .turn 1 {}]

/-- One registration after the other. -/
theorem identities_iff_sequential :
    letI := asciiCase
    letI := zeroDigest
    (empty.db.users.Ok ∧ Identities empty.db.users ∧
      ∀ uow, empty.db.snapshots uow = none) ∧
    (Always step (fun c : (userSys annAndBob).Config => Identities c.sh.db.users)
        (start empty) [.turn 0 {}, .turn 0 {}, .turn 0 {}, .turn 0 {}, .turn 1 {}] ↔
      Along step KeysFree (start (S := userSys annAndBob) empty)
        [.turn 0 {}, .turn 0 {}, .turn 0 {}, .turn 0 {}, .turn 1 {}]) :=
  letI := asciiCase
  letI := zeroDigest
  have hok : empty.db.users.Ok := ok_empty
  have hid : Identities empty.db.users := identities_empty
  ⟨⟨hok, hid, fun _ => rfl⟩, identities_iff annAndBob empty hok hid (fun _ => rfl) _⟩

/-- Two stored users share an email. -/
theorem two_users_one_email : ¬ Identities (@run (@userSys asciiCase zeroDigest annAndBob)
      (start empty) checkThenCreate).sh.db.users := by
  intro h
  have hdistinct := h.distinct 1 2 _ _
    (by decide +kernel : _ = some (newUser 1 0
      { @UserCreate.args asciiCase annCreate "" with permissions := some 3 }))
    (by decide +kernel : _ = some (newUser 2 0
      { @UserCreate.args asciiCase bobCreate "" with permissions := some 3 })) (by decide)
  exact hdistinct.1 rfl

end CleanArch
