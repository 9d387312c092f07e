import CleanArch.Users.Searchable

/-!
# The search index over histories

Histories of calls, with a Redis that may fail at any command. The search stays exact as long as
each step is one that the code handles (`UserCall.SearchSafe`):

- **An update** has to keep the names, or to see a copy and empty all words of the user.
- **A word that is emptied** must not be a word of another user: full names can be shared
  (`OwnWords`).
- **A cache entry** must show the names that are stored (`CacheCurrent`): they differ only after an
  eviction that failed.
-/

namespace CleanArch

open Assoc Async Loops Objects Option Steps UserRepository UserStep

section Calls

variable [PyCase] [Sha256] {deps : UserDeps} {ok : UserAnswer → Prop} {w w' : UserWorld}
  {userId : Int}

def CacheCurrent (deps : UserDeps) (w : UserWorld) (userId : Int) : Prop :=
  deps.cache = true → ∀ doc user, find w.redis.cache userId = some doc →
    w.db.users.entity? userId = some user → SameNames (deserializeUser doc) user

def OwnWords (w : UserWorld) (userId : Int) (words : List Char → Prop) : Prop :=
  ∀ id p x, id ≠ userId → w.db.users.payload? id = some p → p.HasTerm x → ¬ words x

/-- New names replace the old ones in the trie: the update sees a copy of the user as it was, every
word of the user is emptied, and no other user has one of those. -/
structure Replaces (deps : UserDeps) (ok : UserAnswer → Prop) (w : UserWorld) (userId : Int)
    (old new : UserEntity) : Prop where
  username : new.username ≠ none
  cached : deps.cache = true ∧ find w.redis.cache userId ≠ none
  works : ∀ a, ok a → Works a
  own : ∀ x, old.payload.HasTerm x → Dropped old.payload new.payload x
  others : OwnWords w userId (Dropped old.payload new.payload)

/-- An update by `f` of the user, if it is one in `V`, keeps the trie exact. -/
def Resyncs (deps : UserDeps) (ok : UserAnswer → Prop) (w : UserWorld) (userId : Int)
    (V : UserEntity → Prop) (f : UserEntity → UserEntity) : Prop :=
  CacheCurrent deps w userId ∧ ∀ user, w.db.users.entity? userId = some user → V user →
    SameNames (f user) user ∨ Replaces deps ok w userId user (f user)

/-- What a call with answers in `ok` needs to keep the trie exact. -/
def UserCall.SearchSafe (deps : UserDeps) (ok : UserAnswer → Prop) (w : UserWorld) : UserCall → Prop
  | .updateUser userId payload => Resyncs deps ok w userId (fun _ => True) payload.changes.apply
  | .updateProfile userId payload =>
    Resyncs deps ok w userId (fun _ => True) payload.toUpdate.changes.apply
  | .updateUserOptimistic userId version payload =>
    Resyncs deps ok w userId (fun user => user.version = version) payload.assign
  | .updateUserWriteThrough userId payload => ∀ user, w.db.users.entity? userId = some user →
      SameNames (payload.changes.apply user) user
  | .deleteUser userId => CacheCurrent deps w userId ∧ ∀ user,
      w.db.users.entity? userId = some user → OwnWords w userId user.payload.HasTerm
  | _ => True

section View

variable {view : UserView} {w1 : UserWorld} {r : Ref} (hgot : Got ok deps w userId (.ok view) w1)
  (hcurrent : CacheCurrent deps w userId) (hr : find w.db.users.store userId = some r)

include hgot hcurrent hr

omit [PyCase] in
lemma Got.sameNames_seen : SameNames (view.seen w1) (w.db.users.heap.read r) := by
  cases hgot with
  | cached doc hc hdoc => exact hcurrent hc doc _ hdoc (entity?_of_find hr)
  | stored r' hm hr' =>
    cases hr.symm.trans hr'
    exact ⟨rfl, rfl⟩

omit [PyCase] in
lemma Got.sameNames_after (hsame : SameNames new (w.db.users.heap.read r)) :
    SameNames (view.after new) new := by
  have hseen := hgot.sameNames_seen hcurrent hr
  cases view with
  | stored => exact ⟨rfl, rfl⟩
  | copy => exact ⟨hseen.1.trans hsame.1.symm, hseen.2.trans hsame.2.symm⟩

omit [PyCase] in
lemma Got.sameNames_copy (new : UserEntity)
    (hcached : deps.cache = true ∧ find w.redis.cache userId ≠ none)
    (hworks : ∀ a, ok a → Works a) :
    SameNames (view.after new) (w.db.users.heap.read r) := by
  have hseen := hgot.sameNames_seen hcurrent hr
  cases hgot with
  | cached => exact hseen
  | stored r' hm =>
    rcases hm hcached.1 with hnone | ⟨a, ha, hfault⟩
    · exact absurd hnone hcached.2
    · exact absurd (hworks a ha) hfault

end View

lemma Searchable.resynced (h : Searchable w) (hsafe : Resyncs deps ok w userId V f)
    (hid : ∀ user, (f user).id = user.id)
    (hnamed : ∀ user, user.payload.Named → (f user).username ≠ none → (f user).payload.Named)
    (hwanted : ∀ user x, (f user).username = some x → some x ≠ user.username →
      payload.changes.username = some x) {view : UserView}
    (hgot : Got ok deps w userId (.ok view) w1) (hr : find w.db.users.store userId = some r)
    (hV : V (w.db.users.heap.read r)) (hname : (f (w.db.users.heap.read r)).username ≠ none)
    (hchecked : Checked w1 userId payload view)
    (hsync : SyncedTo w.index.trie view (f (w.db.users.heap.read r)) t) :
    Searchable (w.updated r (f (w.db.users.heap.read r)) t cache) := by
  have hu := entity?_of_find hr
  have hold := h.named userId _ (payload?_eq_some.mpr ⟨_, hu, rfl⟩)
  obtain ⟨base, rfl, -⟩ := hgot.world
  have hfree := h.username_free hr hname (hwanted _) (hgot.sameNames_seen hsafe.1 hr) hchecked
  rcases hsafe.2 _ hu hV with hsame | hrep
  · have hafter := hgot.sameNames_after hsafe.1 hr hsame
    have hnot := not_dropped_of_same (p := (view.after (f (w.db.users.heap.read r))).payload)
      (q := (f (w.db.users.heap.read r)).payload) hafter.1 hafter.2
    refine h.updated hr (hid _) (hnamed _ hold hname) hfree hsync (fun x _ => .inr ?_)
      fun _ _ x _ _ _ => hnot x
    simp only [UserEntity.payload, hid, hsame.1, hsame.2]
  · have hcopy := hgot.sameNames_copy hsafe.1 hr (f (w.db.users.heap.read r)) hrep.cached hrep.works
    have hdropped : ∀ x, Dropped (view.after (f (w.db.users.heap.read r))).payload
        (f (w.db.users.heap.read r)).payload x ↔
        Dropped (w.db.users.heap.read r).payload (f (w.db.users.heap.read r)).payload x := by
      intro x
      simp only [Dropped, UserEntity.payload, hcopy.1, hcopy.2]
    refine h.updated hr (hid _) (hnamed _ hold hname) hfree hsync
      (fun x hx => .inl ((hdropped x).mpr (hrep.own x hx)))
      fun id p x hne hp hx => mt (hdropped x).mp (hrep.others id p x hne hp hx)

abbrev KeepsSearch (ok : UserAnswer → Prop) (w : UserWorld) {α : Type} (p : UserProg α) : Prop :=
  w.Runs ok p fun _ w' => Searchable w'

lemma Searchable.got (h : Searchable w) (hgot : Got ok deps w userId x w1) : Searchable w1 := by
  obtain ⟨cache, rfl, -⟩ := hgot.world
  exact h.sameWorld rfl rfl

lemma Searchable.xfetched (h : Searchable w) (hx : Xfetched deps w userId x w1) :
    Searchable w1 := by
  cases hx <;> exact h.sameWorld rfl rfl

section Methods

variable (h : Searchable w)

include h

omit [Sha256] in
lemma Resyncs.username_ne_none (hsafe : Resyncs deps ok w userId V f)
    (hr : find w.db.users.store userId = some r) (hV : V (w.db.users.heap.read r)) :
    (f (w.db.users.heap.read r)).username ≠ none := by
  rcases hsafe.2 _ (entity?_of_find hr) hV with hsame | hrep
  · rw [hsame.1]
    exact h.username_read hr
  · exact hrep.username

lemma keepsSearch_registerUser (payload : UserCreate) :
    KeepsSearch ok w (registerUser deps payload) :=
  runs_registerUser deps payload (fun _ _ => h) fun hfree _ _ _ =>
    h.created payload rfl rfl hfree rfl rfl

lemma keepsSearch_createUserWithInitialPost (payload : UserCreate) (title content : String)
    (uow : Option Nat) :
    KeepsSearch ok w (createUserWithInitialPost deps payload title content uow) :=
  runs_createUserWithInitialPost deps payload title content uow
    (fun _ _ _ hdb => h.sameWorld hdb rfl)
    fun hfree _ _ _ _ _ hdb => h.created payload rfl rfl hfree hdb rfl

lemma keepsSearch_updateUser (payload : UserUpdate)
    (hsafe : Resyncs deps ok w userId (fun _ => True) payload.changes.apply) :
    KeepsSearch ok w (updateUser deps userId payload) := by
  refine runs_updateUser ⟨h.ok, fun r hr => hsafe.username_ne_none h hr,
    fun _ _ _ hgot => h.got hgot, fun view w1 r t cache hgot hr _ hchecked hsync _ => ?_⟩
  refine h.resynced hsafe (fun _ => rfl) (fun _ hold _ => named_changes payload hold) ?_ hgot hr
    trivial (hsafe.username_ne_none h hr trivial) hchecked hsync
  intro user x hx hne
  rcases or_eq_some_iff.mp hx with hx | ⟨-, hx⟩
  · exact hx
  · exact absurd hx.symm hne

lemma keepsSearch_updateUserOptimistic (version : Nat) (payload : UserUpdate)
    (hsafe : Resyncs deps ok w userId (fun user => user.version = version) payload.assign) :
    KeepsSearch ok w (updateUserOptimistic deps userId version payload) := by
  refine runs_updateUserOptimistic ⟨h.ok, fun r hr => hsafe.username_ne_none h hr,
    fun _ _ _ hgot => h.got hgot, fun view w1 r t cache hgot hr hv hchecked hsync _ => ?_⟩
  refine h.resynced hsafe (fun _ => rfl) (fun _ => named_assigned) ?_ hgot hr hv
    (hsafe.username_ne_none h hr hv) hchecked hsync
  intro user x hx hne
  cases hu : payload.username with
  | none => simp [UserUpdate.assign, hu, Ne.symm hne] at hx
  | some => simpa [UserUpdate.assign, UserUpdate.changes, hu] using hx

lemma keepsSearch_updateUserWriteThrough (payload : UserUpdate)
    (hsame : ∀ user, w.db.users.entity? userId = some user →
      SameNames (payload.changes.apply user) user) :
    KeepsSearch ok w (updateUserWriteThrough deps userId payload) := by
  have hnames : ∀ r, find w.db.users.store userId = some r → _ := fun r hr =>
    hsame _ (entity?_of_find hr)
  refine runs_updateUserWriteThrough h.ok (fun r hr => ?_) (fun _ => h)
    fun r t cache hr _ hsync _ => ?_
  · rw [(hnames r hr).1]
    exact h.username_read hr
  · refine h.updated hr rfl (named_changes payload (h.named_read hr)) (.inl (hnames r hr).1) hsync
      (fun x _ => .inr ?_) fun _ _ x _ _ _ => not_dropped_of_same rfl rfl x
    simp only [UserEntity.payload, (hnames r hr).1, (hnames r hr).2]
    rfl

lemma keepsSearch_updateNid (nidNumber : String) :
    KeepsSearch ok w (updateNid deps userId nidNumber) := by
  refine runs_updateNid nidNumber h fun r cache hr _ => ?_
  refine h.samePayloads (h.ok.updateNid userId (some nidNumber)) (fun id => ?_) ?_
  · rw [h.ok.entity?_updateNid]
    split
    · rw [map_map]
      rfl
    · rfl
  · simp [UserRepository.updateNid, UserRepository.getById, hr]

lemma keepsSearch_updateUserPermissions (permissions : Nat) :
    KeepsSearch ok w (updateUserPermissions deps userId permissions) := by
  refine runs_updateUserPermissions (fun _ _ _ hgot => h.got hgot)
    fun view x w1 cache _ _ _ => ?_
  refine h.samePayloads (h.ok.updatePermissions userId permissions) (fun id => ?_) ?_
  · rw [h.ok.entity?_updatePermissions]
    split
    · rw [map_map]
      rfl
    · rfl
  · simp only [updatePermissions]
    split <;> rfl

lemma keepsSearch_deleteUser (hsafe : UserCall.SearchSafe deps ok w (.deleteUser userId)) :
    KeepsSearch ok w (deleteUser deps userId) := by
  refine runs_deleteUser (fun r hr => h.username_read hr) (fun _ _ _ hgot => h.got hgot)
    fun view w1 username cache hgot hstored husername _ => ?_
  obtain ⟨r, hr⟩ := ne_none_iff_exists'.mp hstored
  have hu := entity?_of_find hr
  have hsame := hgot.sameNames_seen hsafe.1 hr
  obtain ⟨base, rfl, -⟩ := hgot.world
  exact h.deleted hu rfl husername hsame rfl (hsafe.2 _ hu)

lemma keepsSearch_authenticateUser (username password : String) :
    KeepsSearch ok w (authenticateUser deps username password) := by
  refine runs_authenticateUser h.ok (fun _ => h) fun id r hash hr _ _ => ?_
  refine h.samePayloads (h.ok.assign rfl) (fun id' => ?_) ?_
  · rw [h.ok.entity?_assign hr]
    split
    · next hid => 
      rw [hid, entity?_of_find hr]
      rfl
    · rfl
  · simp [assign, moveKey]

end Methods

lemma UserCall.keepsSearch (h : Searchable w) {call : UserCall}
    (hsafe : call.SearchSafe deps ok w) : KeepsSearch ok w (call.prog deps) := by
  cases call with
  | registerUser payload => exact (keepsSearch_registerUser h payload).discard
  | createUserWithInitialPost payload title content uow =>
    exact (keepsSearch_createUserWithInitialPost h payload title content uow).discard
  | updateUser userId payload => exact (keepsSearch_updateUser h payload hsafe).discard
  | updateUserWriteThrough userId payload =>
    exact (keepsSearch_updateUserWriteThrough h payload hsafe).discard
  | updateUserOptimistic userId version payload =>
    exact (keepsSearch_updateUserOptimistic h version payload hsafe).discard
  | updateProfile userId payload => exact (keepsSearch_updateUser h payload.toUpdate hsafe).discard
  | updateNid userId nidNumber => exact (keepsSearch_updateNid h nidNumber).discard
  | updateUserPermissions userId permissions =>
    exact (keepsSearch_updateUserPermissions h permissions).discard
  | deleteUser => exact keepsSearch_deleteUser h hsafe
  | authenticateUser username password =>
    exact (keepsSearch_authenticateUser h username password).discard
  | getUserById userId =>
    exact ((runs_getUserById deps userId).mono fun _ _ hgot => h.got hgot).discard
  | getUserByIdXfetch userId beta now randVal =>
    exact ((runs_getUserByIdXfetch deps userId beta now randVal).mono fun _ _ hx =>
      h.xfetched hx).discard

/-! ## Histories -/

def UserStep.SearchSafe (deps : UserDeps) (w : UserWorld) : UserStep → Prop
  | .call c o => c.SearchSafe deps (fun a => ∃ n, o n = a) w
  | .expire _ => True

lemma Searchable.step (h : Searchable w) {step : UserStep} (hsafe : step.SearchSafe deps w) :
    Searchable (step.exec deps w) := by
  cases step with
  | expire e => cases e <;> exact h.sameWorld rfl rfl
  | call => exact (UserCall.keepsSearch h hsafe).run fun n => ⟨n, rfl⟩

/-- In every history from a searchable state whose steps are all safe, every state answers
`autocomplete_users` exactly. -/
theorem searchExact_of_searchSafe (deps : UserDeps) (w : UserWorld) (hstart : Searchable w)
    (steps : List UserStep)
    (hsafe : Along (exec deps) (UserStep.SearchSafe deps) w steps) :
    Always (exec deps) SearchExact w steps := by
  have hsearchable : Always (exec deps) Searchable w steps :=
    hsafe.invariant (fun _ _ h hsafe => h.step hsafe) hstart
  exact fun before hb => (hsearchable before hb).searchExact

end Calls

def renameToBob : @UserStep asciiCase :=
  letI := asciiCase
  .call (.updateUser 1 { username := some (some bobCreate.username) }) fun _ => {}

def readAnn : @UserStep asciiCase :=
  letI := asciiCase
  .call (.getUserById 1) fun _ => {}

def cachedAnn : UserWorld :=
  letI := asciiCase
  letI := zeroDigest
  [registerAnn, readAnn].foldl (exec {}) .empty

/-- A user who is cached gets another user name. -/
theorem searchExact_of_searchSafe_rename :
    letI := asciiCase
    letI := zeroDigest
    (Searchable UserWorld.empty ∧ Along (exec {}) (UserStep.SearchSafe {}) UserWorld.empty
        [registerAnn, readAnn, renameToBob]) ∧
      Always (exec {}) SearchExact UserWorld.empty
        [registerAnn, readAnn, renameToBob] := by
  let := asciiCase
  let := zeroDigest
  have hstored : cachedAnn.db.users.entity? 1 = some registeredAnn := by decide +kernel
  have hcached : find cachedAnn.redis.cache 1 = some registeredAnn := by decide +kernel
  have hstore : cachedAnn.db.users.store = [(1, 0)] := by decide +kernel
  let payload : UserUpdate := { username := some (some bobCreate.username) }
  have hrenames : Replaces {} (fun a => ∃ n, (fun _ => {} : Nat → UserAnswer) n = a) cachedAnn 1
      registeredAnn (payload.changes.apply registeredAnn) := by
    refine ⟨some_ne_none _, ⟨rfl, by simp [hcached]⟩, ?_, ?_, ?_⟩
    · rintro _ ⟨n, rfl⟩
      rfl
    · rintro x ⟨-, ⟨u, hu, hx⟩ | ⟨n, hn, -⟩⟩
      · exact .inl ⟨by decide, u, hu, hx⟩
      · cases hn
    · intro id p x hid hp
      simp [payload?, entity?, hstore, find, Ne.symm hid] at hp
  have hlast : UserStep.SearchSafe {} cachedAnn renameToBob := by
    refine ⟨fun _ doc user hdoc hu => ?_, fun user hu _ => .inr ?_⟩
    · obtain rfl := Option.some.inj (hcached.symm.trans hdoc)
      obtain rfl := Option.some.inj (hstored.symm.trans hu)
      exact ⟨rfl, rfl⟩
    · obtain rfl := Option.some.inj (hstored.symm.trans hu)
      exact hrenames
  have hsafe : Along (exec {}) (UserStep.SearchSafe {}) UserWorld.empty
      [registerAnn, readAnn, renameToBob] := ⟨trivial, trivial, hlast, trivial⟩
  exact ⟨⟨searchable_empty, hsafe⟩,
    searchExact_of_searchSafe {} UserWorld.empty searchable_empty _ hsafe⟩

def renamedAnn : UserWorld :=
  letI := asciiCase
  letI := zeroDigest
  [registerAnn, renameToBob].foldl (exec { cache := false }) .empty

/-- The user is called `bob`, and is found as `ann`. -/
theorem old_name_found :
    letI := asciiCase
    ¬ SearchExact renamedAnn := by
  let := asciiCase
  let := zeroDigest
  intro h
  obtain ⟨results, ⟨bound, hbound⟩, hids, -⟩ := h "ann" 10 (by decide +kernel) (by decide +kernel)
  have hfound : autocompleteUsers (max bound 5) renamedAnn.index.trie "ann" 10 =
      some [⟨1, some "ann", none, "ann"⟩] := by
    rw [autocompleteUsers, PrefixTrie.autocomplete_of_sorted
      [("ann".toList, [⟨1, some "ann", none⟩], 2)] (by decide +kernel) (by decide +kernel)
      (by decide +kernel) (Nat.le_max_right bound 5)]
    decide +kernel
  cases (hbound _ (Nat.le_max_left bound 5)).symm.trans hfound
  obtain ⟨user, hu, hmatch⟩ := (hids 1).mp ⟨_, List.mem_singleton_self _, rfl⟩
  have hstored : renamedAnn.db.users.entity? 1 = some { registeredAnn with username := "bob" } := by
    decide +kernel
  obtain rfl := Option.some.inj (hstored.symm.trans hu)
  rcases hmatch with ⟨u, hu, hpre⟩ | ⟨n, hn, -⟩
  · obtain rfl := Option.some.inj hu
    revert hpre
    decide +kernel
  · cases hn

end CleanArch
