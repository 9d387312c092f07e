import CleanArch.Users.Identity
import CleanArch.Users.SearchTerms

/-!
# Searchable users

`autocomplete_users` should return the stored users with a name that starts with its argument, as
they are now (`SearchExact`). It does so when the trie is an exact index of their names
(`Searchable`).
-/

namespace CleanArch

open Assoc Objects Option UserRepository

/-! ## The invariant -/

section Invariant

variable [PyCase] {w : UserWorld}

def UserRepository.payload? (s : UserRepository) (id : Int) : Option UserPayload :=
  (s.entity? id).map UserEntity.payload

def UserEntity.Matches (user : UserEntity) (pre : String) : Prop :=
  (∃ u, user.username = some u ∧ normalize pre <+: (PyCase.lower u).toList) ∨
    ∃ n, user.fullName = some n ∧ normalize pre <+: (PyCase.lower n).toList

/-- `autocomplete_users` returns the stored users that match, as they are now, for every prefix that
is not blank and every limit above the number of indexed terms. -/
def SearchExact (w : UserWorld) : Prop :=
  ∀ pre limit, normalize pre ≠ [] → w.index.trie.wordCount < limit →
    ∃ results, (∃ bound, ∀ fuel, bound ≤ fuel →
        autocompleteUsers fuel w.index.trie pre limit = some results) ∧
      (∀ id, (∃ s ∈ results, s.id = id) ↔
        ∃ user, w.db.users.entity? id = some user ∧ user.Matches pre) ∧
      ∀ s ∈ results, ∃ user, w.db.users.entity? s.id = some user ∧
        s.username = user.username ∧ s.fullName = user.fullName

structure Searchable (w : UserWorld) : Prop where
  ok : w.db.users.Ok
  usernames : Inverse UserPayload.username w.db.users.payload? (find w.db.users.usernameIndex)
  named : ∀ id p, w.db.users.payload? id = some p → p.Named
  trie : w.index.trie.WellFormed
  holds : Inverted UserPayload.id UserPayload.HasTerm w.db.users.payload? w.index.trie.Holds

omit [PyCase] in
lemma UserRepository.payload?_eq_some {s : UserRepository} {id : Int} :
    s.payload? id = some p ↔ ∃ user, s.entity? id = some user ∧ user.payload = p :=
  map_eq_some_iff

lemma searchable_empty : Searchable UserWorld.empty := by
  refine ⟨ok_empty, fun k i => ?_, ?_, PrefixTrie.wellFormed_new, fun x p => ?_⟩
  · simp [UserWorld.empty, payload?, entity?, find]
  · intro _ _ hp
    cases hp
  · constructor
    · rintro ⟨payloads, frequency, hentry, -⟩
      cases (TrieNode.entry_new).symm.trans hentry
    · rintro ⟨hp, -⟩
      cases hp

lemma Searchable.congr (h : Searchable w) (hok : w'.db.users.Ok)
    (hpayload : ∀ id, w'.db.users.payload? id = w.db.users.payload? id)
    (husernames : w'.db.users.usernameIndex = w.db.users.usernameIndex)
    (htrie : w'.index.trie = w.index.trie) : Searchable w' := by
  have hsame : w'.db.users.payload? = w.db.users.payload? := funext hpayload
  refine ⟨hok, ?_, ?_, ?_, ?_⟩
  · rw [hsame, husernames]
    exact h.usernames
  · rw [hsame]
    exact h.named
  · rw [htrie]
    exact h.trie
  · rw [hsame, htrie]
    exact h.holds

lemma Searchable.sameWorld (h : Searchable w) (hdb : w'.db.users = w.db.users)
    (htrie : w'.index.trie = w.index.trie) : Searchable w' :=
  h.congr (hdb ▸ h.ok) (fun id => by rw [hdb]) (by rw [hdb]) htrie

lemma Searchable.samePayloads (h : Searchable w) (hok : s.Ok)
    (hpayload : ∀ id, (s.entity? id).map UserEntity.payload =
      (w.db.users.entity? id).map UserEntity.payload)
    (husernames : s.usernameIndex = w.db.users.usernameIndex) :
    Searchable { w with db.users := s, redis.cache := cache } :=
  h.congr hok hpayload husernames rfl

lemma Searchable.named_read (h : Searchable w) (hr : find w.db.users.store userId = some r) :
    (w.db.users.heap.read r).payload.Named :=
  h.named userId _ (payload?_eq_some.mpr ⟨_, entity?_of_find hr, rfl⟩)

lemma Searchable.username_read (h : Searchable w) (hr : find w.db.users.store userId = some r) :
    (w.db.users.heap.read r).username ≠ none := by
  obtain ⟨u, hu⟩ := (h.named_read hr).username
  exact fun hnone => some_ne_none _ (hu.symm.trans hnone)

def UserRepository.usernameWord (s : UserRepository) (id : Int) : List Char :=
  match s.payload? id with
  | none => []
  | some p => normalize (p.username.getD "")

lemma Searchable.length_le_wordCount (h : Searchable w) {ids : List Int} (hnodup : ids.Nodup)
    (hids : ∀ id ∈ ids, w.db.users.payload? id ≠ none) :
    (ids.length : Int) ≤ w.index.trie.wordCount := by
  have hword : ∀ id ∈ ids, ∃ p, ∃ u : Username, w.db.users.payload? id = some p ∧
      p.username = some u.text ∧ w.db.users.usernameWord id = u.text.toList := by
    intro id hid
    obtain ⟨p, hp⟩ := ne_none_iff_exists'.mp (hids id hid)
    obtain ⟨u, hu⟩ := (h.named id p hp).username
    refine ⟨p, u, hp, hu, ?_⟩
    rw [usernameWord, hp]
    simp [hu, u.normalize_text]
  have hwords : (ids.map w.db.users.usernameWord).Nodup := by
    refine hnodup.map_on fun id hid id' hid' heq => ?_
    obtain ⟨p, u, hp, hu, hw⟩ := hword id hid
    obtain ⟨p', u', hp', hu', hw'⟩ := hword id' hid'
    rw [hw, hw'] at heq
    refine h.usernames.eq_of_key_eq hp hp' ?_
    rw [hu, hu', String.toList_inj.mp heq]
  rw [← List.length_map (f := w.db.users.usernameWord)]
  refine h.trie.length_le_wordCount hwords fun x hx => ?_
  obtain ⟨id, hid, rfl⟩ := List.mem_map.mp hx
  obtain ⟨p, u, hp, hu, hw⟩ := hword id hid
  obtain ⟨user, hentity, rfl⟩ := payload?_eq_some.mp hp
  have hterm : user.payload.HasTerm u.text.toList :=
    ⟨mt String.toList_eq_nil_iff.mp u.ne_empty, .inl ⟨_, hu, u.normalize_text⟩⟩
  have hkey : user.payload.id = id := h.ok.entity?_id hentity
  obtain ⟨payloads, frequency, hentry, -⟩ := (h.holds u.text.toList user.payload).mpr
    ⟨by rw [hkey, hp], hterm⟩
  rw [hw, hentry]
  rfl

lemma Searchable.searchExact (h : Searchable w) : SearchExact w := by
  intro pre limit hpre hlimit
  obtain ⟨results, hbound, hcomplete, hsound⟩ :=
    autocompleteUsers_holds h.trie hpre hlimit fun ids hnodup hids => by
      refine h.length_le_wordCount hnodup fun id hid => ?_
      obtain ⟨x, p, hp, rfl⟩ := hids id hid
      rw [((h.holds x p).mp hp).1]
      exact some_ne_none p
  have hmatches : ∀ id user, w.db.users.entity? id = some user → (user.Matches pre ↔
      ∃ x, normalize pre <+: x ∧ user.payload.HasTerm x) := by
    intro id user hu
    have hnamed := h.named id _ (payload?_eq_some.mpr ⟨user, hu, rfl⟩)
    simp only [hnamed.hasTerm_iff, UserEntity.Matches]
    constructor
    · rintro (⟨u, hu, hw⟩ | ⟨n, hn, hw⟩)
      · exact ⟨_, hw, .inl ⟨u, hu, rfl⟩⟩
      · exact ⟨_, hw, .inr ⟨n, hn, rfl⟩⟩
    · rintro ⟨x, hw, ⟨u, hu, rfl⟩ | ⟨n, hn, rfl⟩⟩
      · exact .inl ⟨u, hu, hw⟩
      · exact .inr ⟨n, hn, hw⟩
  have hstored : ∀ s ∈ results, ∃ user, w.db.users.entity? s.id = some user ∧
      user.Matches pre ∧ s.username = user.username ∧ s.fullName = user.fullName := by
    intro s hs
    obtain ⟨x, p, hw, hp, hid, husername, hfullName⟩ := hsound s hs
    obtain ⟨hshown, hterm⟩ := (h.holds x p).mp hp
    obtain ⟨user, hu, rfl⟩ := payload?_eq_some.mp hshown
    rw [← hid] at hu
    exact ⟨user, hu, (hmatches _ user hu).mpr ⟨x, hw, hterm⟩, husername, hfullName⟩
  refine ⟨results, hbound, fun id => ⟨?_, ?_⟩, fun s hs => ?_⟩
  · rintro ⟨s, hs, rfl⟩
    obtain ⟨user, hu, hmatch, -⟩ := hstored s hs
    exact ⟨user, hu, hmatch⟩
  · rintro ⟨user, hu, hmatch⟩
    obtain ⟨x, hw, hterm⟩ := (hmatches id user hu).mp hmatch
    have hid : user.payload.id = id := h.ok.entity?_id hu
    have hp := (h.holds x user.payload).mpr
      ⟨by rw [hid]; exact payload?_eq_some.mpr ⟨user, hu, rfl⟩, hterm⟩
    obtain ⟨s, hs, hsid⟩ := hcomplete x user.payload hw hp
    exact ⟨s, hs, hsid.trans hid⟩
  · obtain ⟨user, hu, -, hnames⟩ := hstored s hs
    exact ⟨user, hu, hnames⟩

/-! ## Writes -/

lemma Searchable.find_username_none (h : Searchable w)
    (hfree : ∀ r, w.db.users.getByUsername username = some r →
      (w.db.users.heap.read r).username ≠ some username) :
    find w.db.users.usernameIndex (some username) = none := by
  cases hf : find w.db.users.usernameIndex (some username) with
  | none => rfl
  | some =>
    obtain ⟨p, hp, hu⟩ := (h.usernames _ _).mp hf
    obtain ⟨user, he, rfl⟩ := payload?_eq_some.mp hp
    obtain ⟨r, hr, rfl⟩ := entity?_eq_some.mp he
    refine absurd hu (hfree r ?_)
    rw [getByUsername, hf]
    exact hr

lemma Searchable.created (h : Searchable w) (payload : UserCreate)
    (husername : a.username = payload.username.text)
    (hfullName : a.fullName = payload.fullName.map FullName.text) (hfree : payload.Free w.db.users)
    (hdb : w'.db.users = (w.db.users.create now a).2)
    (htrie : w'.index.trie = indexed w.index.trie a.username (w.newUser now a)) :
    Searchable w' := by
  have hpayload : ∀ id, w'.db.users.payload? id = if id = w.db.users.currentId + 1 then
      some (w.newUser now a).payload else w.db.users.payload? id := fun id => by
    rw [payload?, hdb, h.ok.entity?_create]
    split <;> rfl
  have hnew : w.db.users.payload? (w.db.users.currentId + 1) = none := by
    by_contra hne
    obtain ⟨p, hp⟩ := ne_none_iff_exists'.mp hne
    obtain ⟨user, he, -⟩ := payload?_eq_some.mp hp
    have := h.ok.entity?_le he
    omega
  have hnone : find w.db.users.usernameIndex (some a.username) = none := by
    refine h.find_username_none fun r hr => ?_
    rw [husername, hfree.2] at hr
    cases hr
  obtain ⟨hwf, hholds⟩ := holds_indexed (w.newUser now a) h.trie rfl
  rw [← htrie] at hwf hholds
  refine ⟨hdb ▸ h.ok.create now a, ?_, fun id p hp => ?_, hwf, ?_⟩
  · refine (h.usernames.insert_iff hnew hpayload fun k => ?_).mpr hnone
    rw [hdb]
    exact find_setKey _ _ k _
  · rw [hpayload] at hp
    split at hp
    · cases hp
      exact named_newUser payload husername hfullName _
    · exact h.named id p hp
  · refine h.holds.change (w.db.users.currentId + 1) (fun _ => False)
      (fun j hj => (hpayload j).trans (if_neg hj)) (fun p hp => ?_) (fun x p => ?_)
      (fun p x hp => ?_) fun _ _ _ _ _ _ => id
    · rw [hpayload, if_pos rfl] at hp
      cases hp
      rfl
    · rw [hholds, hpayload, if_pos rfl, some_inj]
      simp
    · rw [hnew] at hp
      cases hp

def SameNames (a b : UserEntity) : Prop := a.username = b.username ∧ a.fullName = b.fullName

lemma Searchable.username_free (h : Searchable w) {view : UserView} {new : UserEntity}
    (hr : find w.db.users.store userId = some r) (hnew : new.username ≠ none)
    (hwanted : ∀ x, new.username = some x → some x ≠ (w.db.users.heap.read r).username →
      payload.changes.username = some x)
    (hseen : SameNames (view.seen { w with redis.cache := cache }) (w.db.users.heap.read r))
    (hchecked : Checked { w with redis.cache := cache } userId payload view) :
    new.username = (w.db.users.heap.read r).username ∨
      find w.db.users.usernameIndex new.username = none := by
  by_cases hsame : new.username = (w.db.users.heap.read r).username
  · exact .inl hsame
  · obtain ⟨x, hx⟩ := ne_none_iff_exists'.mp hnew
    rw [hx] at hsame ⊢
    refine .inr (h.find_username_none fun r' hr' => ?_)
    have hid := hchecked.username x (hwanted x hx hsame) (hseen.1.symm ▸ hsame) r' hr'
    -- the object that has the name is that of the user, which has another one
    obtain ⟨id, -, hfound⟩ := bind_eq_some_iff.mp hr'
    cases (h.ok.id_eq hfound).symm.trans hid
    cases hr.symm.trans hfound
    exact Ne.symm hsame

lemma Searchable.updated (h : Searchable w) {view : UserView}
    (hr : find w.db.users.store userId = some r) (hid : new.id = (w.db.users.heap.read r).id)
    (hnamed : new.payload.Named) (hfree : new.username = (w.db.users.heap.read r).username ∨
      find w.db.users.usernameIndex new.username = none) (hsync : SyncedTo w.index.trie view new t)
    (hown : ∀ x, (w.db.users.heap.read r).payload.HasTerm x →
      Dropped (view.after new).payload new.payload x ∨
        new.payload = (w.db.users.heap.read r).payload)
    (hothers : ∀ id p x, id ≠ userId → w.db.users.payload? id = some p → p.HasTerm x →
      ¬ Dropped (view.after new).payload new.payload x) : Searchable (w.updated r new t cache) := by
  have hold : w.db.users.payload? userId = some (w.db.users.heap.read r).payload :=
    payload?_eq_some.mpr ⟨_, entity?_of_find hr, rfl⟩
  have hpayload : ∀ id, (w.updated r new t cache).db.users.payload? id =
      if id = userId then some new.payload else w.db.users.payload? id := fun id => by
    rw [payload?, UserWorld.updated, h.ok.entity?_assign hr]
    split <;> rfl
  obtain ⟨hwf, hholds⟩ := hsync.holds h.trie
  refine ⟨h.ok.assign hid, ?_, fun id p hp => ?_, hwf, ?_⟩
  · refine (h.usernames.move_iff hold hpayload fun k => ?_).mpr hfree
    rw [← h.ok.id_eq hr]
    exact find_moveKey _ _
  · rw [hpayload] at hp
    split at hp
    · cases hp
      exact hnamed
    · exact h.named id p hp
  · refine h.holds.change userId (Dropped (view.after new).payload new.payload)
      (fun j hj => (hpayload j).trans (if_neg hj)) (fun p hp => ?_) (fun x p => ?_)
      (fun p x hp hx => ?_) hothers
    · rw [hpayload, if_pos rfl] at hp
      cases hp
      exact hid.trans (h.ok.id_eq hr)
    · rw [hpayload, if_pos rfl, some_inj]
      exact hholds x p
    · cases hold.symm.trans hp
      rw [hpayload, if_pos rfl, some_inj]
      exact hown x hx

lemma Searchable.deleted (h : Searchable w) (hu : w.db.users.entity? userId = some user)
    (hdb : w'.db.users = (w.db.users.delete userId).2) (hseen : seen.username = some username)
    (hsame : seen.username = user.username ∧
      seen.fullName = user.fullName) (htrie : w'.index.trie = removed w.index.trie username seen)
    (hothers : ∀ id p x, id ≠ userId → w.db.users.payload? id = some p → p.HasTerm x →
      ¬ user.payload.HasTerm x) : Searchable w' := by
  have hold : w.db.users.payload? userId = some user.payload :=
    payload?_eq_some.mpr ⟨user, hu, rfl⟩
  have hpayload : ∀ id, w'.db.users.payload? id =
      if id = userId then none else w.db.users.payload? id := fun id => by
    rw [payload?, hdb, entity?_delete]
    split <;> rfl
  have hterm : ∀ x, seen.payload.HasTerm x ↔ user.payload.HasTerm x := fun x => by
    simp only [UserPayload.HasTerm, UserEntity.payload, hsame]
  obtain ⟨hwf, hholds⟩ := holds_removed h.trie hseen
  rw [← htrie] at hwf hholds
  refine ⟨hdb ▸ h.ok.delete userId, ?_, fun id p hp => ?_, hwf, ?_⟩
  · refine h.usernames.remove hold hpayload fun k => ?_
    obtain ⟨r, hr, rfl⟩ := entity?_eq_some.mp hu
    rw [hdb]
    simp only [delete, getById, hr]
    exact find_eraseKey _
  · rw [hpayload] at hp
    split at hp
    · cases hp
    · exact h.named id p hp
  · refine h.holds.change userId user.payload.HasTerm
      (fun j hj => (hpayload j).trans (if_neg hj)) (fun p hp => ?_) (fun x p => ?_)
      (fun p x hp hx => ?_) hothers
    · rw [hpayload, if_pos rfl] at hp
      cases hp
    · rw [hpayload, if_pos rfl, hholds, hterm]
      simp
    · cases hold.symm.trans hp
      exact .inl hx

end Invariant

end CleanArch
