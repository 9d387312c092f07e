import CleanArch.Users.Runs

/-!
# Runs of the updates

What the methods of the service that change a stored user do to the world, when nothing else runs.
The rules ask for user names that are texts: for `None` the search index raises `AttributeError` in
the middle of an update.
-/

namespace CleanArch

open Assoc Async Objects Option UserDb UserRepository

section Updates

variable [PyCase] [Sha256] {ok : UserAnswer → Prop} {w : UserWorld} {deps : UserDeps}
  {userId : Int}

/-- The world after an assignment to the object `r`. -/
def UserWorld.updated (w : UserWorld) (r : Ref) (user : UserEntity) (t : PrefixTrie UserPayload)
    (cache : List (Int × UserEntity)) : UserWorld where
  db := { w.db with users := w.db.users.assign r user }
  index := { w.index with trie := t }
  redis := { w.redis with cache := cache }

/-- What a view of a user shows once the stored object has become `new`: a copy is as it was. -/
def UserView.after (new : UserEntity) : UserView → UserEntity
  | .stored _ => new
  | .copy user => user

/-- The trie after an update to `new` of the user in `view`. -/
def SyncedTo (t : PrefixTrie UserPayload) (view : UserView) (new : UserEntity)
    (t' : PrefixTrie UserPayload) : Prop :=
  ∃ oldName newName, (view.after new).username = some oldName ∧ new.username = some newName ∧
    t' = synced t oldName newName (view.after new) new

/-! ## The view -/

omit [PyCase] in
lemma Got.world (h : Got ok deps w userId x w1) : ∃ cache, w1 = { w with redis.cache := cache } ∧
      (cache = w.redis.cache ∨ ∃ r, find w.db.users.store userId = some r ∧
        cache = set w.redis.cache userId (w.db.users.heap.read r)) := by
  cases h with
  | stored r hm hr cache hcache => exact ⟨cache, rfl, hcache.imp_right fun h => ⟨r, hr, h⟩⟩
  | _ => exact ⟨w.redis.cache, rfl, .inl rfl⟩

/-- A view of the user that `r` is the object of. -/
def UserView.Of (r : Ref) : UserView → Prop
  | .stored r' => r' = r
  | .copy user => user.username ≠ none

omit [PyCase] in
lemma Got.of {view : UserView} (h : Got ok deps w userId (.ok view) w1)
    (hr : find w.db.users.store userId = some r) : view.Of r := by
  cases h with
  | cached => exact some_ne_none _
  | stored r' hm hr' => exact Option.some.inj (hr'.symm.trans hr)

lemma runs_syncTrie_of {view : UserView} (hview : view.Of r)
    (hread : w.db.users.heap.read r = new) (hname : new.username ≠ none)
    (h : ∀ t, SyncedTo w.index.trie view new t → Q (.ok ()) (w.withTrie t)) :
    w.Runs ok (syncTrie view r) Q := by
  have hseen : view.seen w = view.after new := by
    cases view with
    | stored =>
      cases hview
      exact hread
    | copy => rfl
  have hold : (view.after new).username ≠ none := by
    cases view with
    | stored => exact hname
    | copy => exact hview
  obtain ⟨oldName, hold⟩ := ne_none_iff_exists'.mp hold
  obtain ⟨newName, hnew⟩ := ne_none_iff_exists'.mp hname
  have hold' : (view.seen w).username = some oldName := by rw [hseen, hold]
  have hnew' : (w.db.users.heap.read r).username = some newName := by rw [hread, hnew]
  refine runs_syncTrie hold' hnew' ?_
  rw [hseen, hread]
  exact h _ ⟨oldName, newName, hold, hnew, rfl⟩

/-! ## Updates in place -/

variable {Q : UserPost UserView}

/-- `Q` holds after an update that assigns `f` to a stored user who meets `V`. -/
structure Changes (ok : UserAnswer → Prop) (deps : UserDeps) (w : UserWorld) (userId : Int)
    (payload : UserUpdate) (V : UserEntity → Prop) (f : UserEntity → UserEntity)
    (Q : UserPost UserView) : Prop where
  users : w.db.users.Ok
  name : ∀ r, find w.db.users.store userId = some r → V (w.db.users.heap.read r) →
    (f (w.db.users.heap.read r)).username ≠ none
  fail : ∀ x e w1, Got ok deps w userId x w1 → Q (.error e) w1
  done : ∀ view w1 r t cache, Got ok deps w userId (.ok view) w1 →
    find w.db.users.store userId = some r → V (w.db.users.heap.read r) →
    Checked w1 userId payload view → SyncedTo w.index.trie view (f (w.db.users.heap.read r)) t →
    CacheAfter ok deps w1.redis.cache (erase w1.redis.cache userId) cache →
    Q (.ok (.stored r)) (w.updated r (f (w.db.users.heap.read r)) t cache)

/-- The shape of `update_user` and of `update_user_optimistic`, with the repository's `write`. -/
lemma Changes.runs (h : Changes ok deps w userId payload V f Q)
    (hwrite : ∀ w : UserWorld, w.Runs ok write fun x w' => Assigned w userId f x w' ∧
      ∀ r, x = .ok r → V (w.db.users.heap.read r)) :
    w.Runs ok ((getUserById deps userId).bind fun view =>
      (refuseConflicts userId payload view).bind fun _ => write.bind fun updated =>
        (syncTrie view updated).bind fun _ => (evict deps userId).bind fun _ =>
          .ret (.stored updated)) Q := by
  refine runs_bind.mpr ((runs_getUserById deps userId).mono ?_)
  rintro (e | view) w1 hgot
  · exact h.fail _ e w1 hgot
  refine runs_bind.mpr ((runs_refuseConflicts userId view).mono ?_)
  rintro _ _ ⟨rfl, ⟨rfl, hchecked⟩ | ⟨m, rfl⟩⟩
  · refine runs_bind.mpr ((hwrite _).mono ?_)
    rintro (e | r) w2 ⟨hassigned, hV⟩
    · cases hassigned
      exact h.fail _ e _ hgot
    · obtain ⟨hr, rfl⟩ := hassigned
      obtain ⟨cache1, rfl, -⟩ := hgot.world
      have hnew := Heap.read_write_self (h.users.lt_size hr) (f (w.db.users.heap.read r))
      refine runs_bind.mpr (runs_syncTrie_of (hgot.of hr) hnew (h.name r hr (hV r rfl)) ?_)
      intro t ht
      refine runs_bind.mpr ((runs_evict deps userId).mono ?_)
      rintro _ _ ⟨rfl, cache, rfl, hcache⟩
      exact h.done view _ r t cache hgot hr (hV r rfl) hchecked ht hcache
  · exact h.fail _ _ _ hgot

lemma runs_updateUser
    (h : Changes ok deps w userId payload (fun _ => True) payload.changes.apply Q) :
    w.Runs ok (updateUser deps userId payload) Q := by
  have hshape := h.runs fun w =>
    (runs_update userId).mono fun x w' hassigned => ⟨hassigned, fun _ _ => trivial⟩
  simp only [Prog.bind_assoc] at hshape
  exact hshape

lemma runs_updateUserOptimistic
    (h : Changes ok deps w userId payload (fun user => user.version = version) payload.assign Q) :
    w.Runs ok (updateUserOptimistic deps userId version payload) Q :=
  h.runs fun _ => runs_updateWithOptimisticLock userId version payload

lemma runs_found {α : Type} {k : Ref → UserProg α} {Q : UserPost α}
    (hnone : find w.db.users.store userId = none → Q (.error (.userNotFound userId)) w)
    (hsome : ∀ r, find w.db.users.store userId = some r → w.Runs ok (k r) Q) :
    w.Runs ok ((repo (.getById userId)).bind fun r => (orNotFound userId r).bind k) Q := by
  refine runs_bind.mpr (runs_repo.mpr fun _ _ => ?_)
  simp only [RepoCmd.exec, UserRepository.getById]
  cases hr : find w.db.users.store userId with
  | none => exact hnone hr
  | some r => exact hsome r hr

lemma runs_updateUserWriteThrough (hok : w.db.users.Ok)
    (hname : ∀ r, find w.db.users.store userId = some r →
      (payload.changes.apply (w.db.users.heap.read r)).username ≠ none)
    (hfail : ∀ e, Q (.error e) w) (hdone : ∀ r t cache, find w.db.users.store userId = some r →
      Checked w userId payload (.stored r) →
      SyncedTo w.index.trie (.stored r) (payload.changes.apply (w.db.users.heap.read r)) t →
      CacheAfter ok deps w.redis.cache (set w.redis.cache userId
        (payload.changes.apply (w.db.users.heap.read r))) cache →
      Q (.ok (.stored r)) (w.updated r (payload.changes.apply (w.db.users.heap.read r)) t cache)) :
    w.Runs ok (updateUserWriteThrough deps userId payload) Q := by
  refine runs_found (fun _ => hfail _) fun r hr => ?_
  refine runs_bind.mpr ((runs_refuseConflicts userId (.stored r)).mono ?_)
  rintro _ w ⟨rfl, ⟨rfl, hchecked⟩ | ⟨m, rfl⟩⟩
  · change UserWorld.Runs ok w ((repo (.update userId payload.changes)).bind fun r =>
      (orNotFound userId r).bind _) Q
    rw [← Prog.bind_assoc]
    refine runs_bind.mpr ((runs_update userId).mono ?_)
    rintro (e | r') w2 hassigned
    · cases hassigned
      exact hfail e
    · obtain ⟨hr', rfl⟩ := hassigned
      cases hr.symm.trans hr'
      have hnew := Heap.read_write_self (hok.lt_size hr)
        (payload.changes.apply (w.db.users.heap.read r))
      refine runs_bind.mpr (runs_syncTrie_of rfl hnew (hname r hr) fun t ht => ?_)
      refine runs_bind.mpr ((runs_storeInCache deps userId).mono ?_)
      rintro _ _ ⟨rfl, cache, rfl, hcache⟩
      refine hdone r t cache hr hchecked ht ?_
      change CacheAfter ok deps w.redis.cache (set w.redis.cache userId
        ((w.db.users.heap.write r (payload.changes.apply (w.db.users.heap.read r))).read r)) cache
        at hcache
      rwa [hnew] at hcache
  · exact hfail _

/-! ## The national id and the permissions -/

lemma runs_updateNid (nidNumber : String) (hfail : Q (.error (.userNotFound userId)) w)
    (hdone : ∀ r cache, find w.db.users.store userId = some r →
      CacheAfter ok deps w.redis.cache (set w.redis.cache userId
        ((w.db.users.updateNid userId (some nidNumber)).2.heap.read r)) cache →
      Q (.ok (.stored r)) { w with
        db.users := (w.db.users.updateNid userId (some nidNumber)).2, redis.cache := cache }) :
    w.Runs ok (updateNid deps userId nidNumber) Q := by
  refine runs_found (fun _ => hfail) fun r hr => ?_
  refine runs_bind.mpr (runs_repo.mpr fun _ _ => ?_)
  have hupdated : (w.db.users.updateNid userId (some nidNumber)).1 = some r := by
    simp [UserRepository.updateNid, UserRepository.getById, hr]
  simp only [RepoCmd.exec, onUsers, Prod.map_fst, Prod.map_snd, id_eq, hupdated]
  refine runs_bind.mpr (runs_bind.mpr ((runs_storeInCache deps userId).mono ?_))
  rintro _ _ ⟨rfl, cache, rfl, hcache⟩
  exact hdone r cache hr hcache

lemma runs_updateUserPermissions (hfail : ∀ x e w1, Got ok deps w userId x w1 → Q (.error e) w1)
    (hdone : ∀ view x w1 cache, Got ok deps w userId (.ok x) w1 →
      find w.db.users.store userId ≠ none →
      CacheAfter ok deps w1.redis.cache (erase w1.redis.cache userId) cache →
      Q (.ok view) { w with
        db.users := (w.db.users.updatePermissions userId permissions).2, redis.cache := cache }) :
    w.Runs ok (updateUserPermissions deps userId permissions) Q := by
  refine runs_bind.mpr ((runs_getUserById deps userId).mono ?_)
  rintro (e | view) w1 hgot
  · exact hfail _ e w1 hgot
  obtain ⟨cache1, rfl, -⟩ := hgot.world
  refine runs_bind.mpr (runs_repo.mpr fun _ _ => ?_)
  cases hr : find w.db.users.store userId with
  | none =>
    simp only [RepoCmd.exec, onUsers, updatePermissions, UserRepository.getById, hr]
    exact hfail _ _ _ hgot
  | some =>
    have hupdated : (w.db.users.updatePermissions userId permissions).1 =
        some w.db.users.heap.size := by
      simp [updatePermissions, UserRepository.getById, hr]
    simp only [RepoCmd.exec, onUsers, Prod.map_fst, Prod.map_snd, id_eq, hupdated]
    refine runs_bind.mpr (runs_bind.mpr ((runs_evict deps userId).mono ?_))
    rintro _ _ ⟨rfl, cache, rfl, hcache⟩
    exact hdone _ view _ cache hgot (by simp [hr]) hcache

/-! ## Deletion -/

/-- The trie after the deletions of `delete_user`. -/
def removed (t : PrefixTrie UserPayload) (username : String) (user : UserEntity) :
    PrefixTrie UserPayload :=
  let t := (t.delete username none).2
  match user.name? with
  | none => t
  | some name => (t.delete name none).2

lemma runs_deleteUser {Q : UserPost Unit}
    (hname : ∀ r, find w.db.users.store userId = some r → (w.db.users.heap.read r).username ≠ none)
    (hfail : ∀ x e w1, Got ok deps w userId x w1 → Q (.error e) w1)
    (hdone : ∀ view w1 username cache, Got ok deps w userId (.ok view) w1 →
      find w.db.users.store userId ≠ none → (view.seen w).username = some username →
      CacheAfter ok deps w1.redis.cache (erase w1.redis.cache userId) cache →
      Q (.ok ()) { w with
        db.users := (w.db.users.delete userId).2
        index.trie := removed w.index.trie username (view.seen w)
        redis.cache := cache }) :
    w.Runs ok (deleteUser deps userId) Q := by
  refine runs_bind.mpr ((runs_getUserById deps userId).mono ?_)
  rintro (e | view) w1 hgot
  · exact hfail _ e w1 hgot
  obtain ⟨cache1, rfl, -⟩ := hgot.world
  refine runs_bind.mpr (runs_repo.mpr fun _ _ => ?_)
  cases hr : find w.db.users.store userId with
  | none =>
    simp only [RepoCmd.exec, onUsers, delete, UserRepository.getById, hr]
    exact hfail _ _ _ hgot
  | some =>
    have hdeleted : (w.db.users.delete userId).1 = true := by
      simp [delete, UserRepository.getById, hr]
    have hheap : (w.db.users.delete userId).2.heap = w.db.users.heap := by
      simp [delete, UserRepository.getById, hr]
    have hseen : ∀ w' : UserWorld, w'.db.users.heap = w.db.users.heap →
        view.seen w' = view.seen w := fun w' h => by
      cases view with
      | stored r' => exact congrArg (Heap.read · r') h
      | copy => rfl
    have husername : (view.seen w).username ≠ none := by
      have hof := hgot.of hr
      cases view with
      | stored =>
        cases hof
        exact hname _ hr
      | copy => exact hof
    obtain ⟨username, husername⟩ := ne_none_iff_exists'.mp husername
    simp only [RepoCmd.exec, onUsers, Prod.map_fst, Prod.map_snd, id_eq, hdeleted]
    refine runs_bind.mpr (runs_bind.mpr (runs_read view ?_))
    rw [hseen _ hheap]
    refine runs_bind.mpr (runs_trieDelete husername (runs_bind.mpr ?_))
    have hrest : ∀ t, t = removed w.index.trie username (view.seen w) →
        UserWorld.Runs ok (UserWorld.withTrie { w with
          db.users := (w.db.users.delete userId).2, redis.cache := cache1 } t)
          (evict deps userId) Q := by
      rintro _ rfl
      refine (runs_evict deps userId).mono ?_
      rintro _ _ ⟨rfl, cache, rfl, hcache⟩
      exact hdone view _ username cache hgot (by simp [hr]) husername hcache
    refine runs_ifText (fun hn => ?_) fun name hfull hn => runs_trieDelete hfull ?_
    · exact hrest _ (by simp only [removed, hn])
    · exact hrest _ (by simp only [removed, hn]; rfl)

/-! ## Authentication -/

def UserRepository.login (s : UserRepository) (username : String) : Option Ref :=
  (s.getByUsername username).or (s.getByEmail username)

omit [PyCase] [Sha256] in
lemma UserRepository.find_of_login {s : UserRepository} (h : s.login username = some r) :
    ∃ id, find s.store id = some r := by
  rcases or_eq_some_iff.mp h with h | ⟨-, h⟩ <;>
  · obtain ⟨id, -, hr⟩ := bind_eq_some_iff.mp h
    exact ⟨id, hr⟩

lemma runs_findLogin {Q : UserPost (Option Ref)}
    (h : Q (.ok (w.db.users.login username)) w) : w.Runs ok (findLogin username) Q := by
  unfold UserRepository.login at h
  refine runs_bind.mpr (runs_repo.mpr fun _ _ => ?_)
  simp only [RepoCmd.exec]
  cases hr : w.db.users.getByUsername username with
  | some =>
    rw [hr] at h
    exact h
  | none =>
    rw [hr] at h
    exact runs_repo.mpr fun _ _ => h

lemma runs_authenticateUser (hok : w.db.users.Ok)
    {Q : UserPost (Option UserView)} (hsame : ∀ x, Q (.ok x) w)
    (hrehash : ∀ id r hash, find w.db.users.store id = some r → w.db.users.login username = some r →
      deps.needsRehash (w.db.users.heap.read r).passwordHash = true →
      Q (.ok (some (.stored r))) (w.updated r
        { w.db.users.heap.read r with passwordHash := hash } w.index.trie w.redis.cache)) :
    w.Runs ok (authenticateUser deps username password) Q := by
  refine runs_bind.mpr (runs_findLogin ?_)
  cases hlogin : w.db.users.login username with
  | none => exact hsame none
  | some r =>
    obtain ⟨id, hr⟩ := find_of_login hlogin
    refine runs_readRef rfl (runs_bind.mpr (runs_outside.mpr fun _ _ => ?_))
    refine runs_ite (fun _ => runs_readRef rfl (runs_ite (fun hneeds => ?_) fun _ => hsame _))
      fun _ => hsame none
    refine runs_bind.mpr (runs_bind.mpr (runs_outside.mpr fun o _ => runs_readRef rfl ?_))
    rw [hok.id_eq hr]
    refine runs_bind.mpr (runs_repo.mpr fun _ _ => ?_)
    simp only [RepoCmd.exec, onUsers, update, UserRepository.getById, hr]
    exact hrehash id r o.hash hr hlogin hneeds

end Updates

end CleanArch
