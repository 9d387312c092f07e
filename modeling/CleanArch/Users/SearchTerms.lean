import CleanArch.Dsa.Autocomplete
import CleanArch.Users.Updates

/-!
# Terms of the search index

What the methods of the service do to the payloads that the trie holds. An update empties the words
of the names that it sees changed (`Dropped`), and a deletion those of the user: what other users
have there goes too.
-/

namespace CleanArch

open Assoc List Objects PrefixTrie UserUpdate

/-!
## Suggestions

`autocomplete_users` goes through the payloads of the completions and keeps the first one of each
id, until it has `limit` of them (`Page`).
-/

variable {limit : Int} {ps : List UserPayload} {results : List UserSuggestion}

/-- The suggestions are made from the payloads `ps`, all of them where there is still room. -/
structure Page (limit : Int) (ps : List UserPayload) (results : List UserSuggestion) : Prop where
  nodup : (results.map (·.id)).Nodup
  from_payload : ∀ s ∈ results, ∃ p ∈ ps,
    s.id = p.id ∧ s.username = p.username ∧ s.fullName = p.fullName
  le : (results.length : Int) ≤ limit
  complete : (results.length : Int) < limit → ∀ p ∈ ps, ∃ s ∈ results, s.id = p.id

section Loops

variable (hlimit : 0 < limit)

include hlimit

lemma page_nil : Page limit [] [] where
  nodup := List.Pairwise.nil
  from_payload _ hs := by cases hs
  le := hlimit.le
  complete _ _ hp := by cases hp

lemma Page.suggest (h : Page limit ps results) (term : List Char) (p : UserPayload) :
    Page limit (ps ++ [p]) (suggest limit term results p) := by
  have hold : ∀ s ∈ results, ∃ q ∈ ps ++ [p],
      s.id = q.id ∧ s.username = q.username ∧ s.fullName = q.fullName := fun s hs => by
    obtain ⟨q, hq, heq⟩ := h.from_payload s hs
    exact ⟨q, mem_append_left _ hq, heq⟩
  unfold CleanArch.suggest
  split
  · next hskip =>
    refine ⟨h.nodup, hold, h.le, fun hroom q hq => ?_⟩
    rcases mem_append.mp hq with hq | hq
    · exact h.complete hroom q hq
    · obtain ⟨s, hs, hid⟩ := any_eq_true.mp (hskip.resolve_left fun hfull => by omega)
      exact ⟨s, hs, (eq_of_beq hid).trans (congrArg UserPayload.id (mem_singleton.mp hq)).symm⟩
  · next hnew =>
    have hroom : (results.length : Int) < limit := by
      by_contra hfull
      refine hnew (.inl ⟨by omega, ?_⟩)
      rintro rfl
      exact hfull hlimit
    have hfresh : ∀ s ∈ results, s.id ≠ p.id := fun s hs hid =>
      hnew (.inr (any_eq_true.mpr ⟨s, hs, beq_iff_eq.mpr hid⟩))
    refine ⟨?_, fun s hs => ?_, ?_, fun _ q hq => ?_⟩
    · rw [map_append, nodup_append']
      refine ⟨h.nodup, nodup_singleton _, ?_⟩
      simpa [disjoint_singleton] using hfresh
    · rcases mem_append.mp hs with hs | hs
      · exact hold s hs
      · cases mem_singleton.mp hs
        exact ⟨p, by simp, rfl, rfl, rfl⟩
    · rw [length_append, length_singleton]
      omega
    · rcases mem_append.mp hq with hq | hq
      · obtain ⟨s, hs, hid⟩ := h.complete hroom q hq
        exact ⟨s, mem_append_left _ hs, hid⟩
      · cases mem_singleton.mp hq
        exact ⟨_, mem_append_right _ (mem_singleton_self _), rfl⟩

lemma Page.payloads (h : Page limit ps results) (term : List Char) (l : List UserPayload) :
    Page limit (ps ++ l) (l.foldl (CleanArch.suggest limit term) results) := by
  induction l generalizing ps results with
  | nil => simpa using h
  | cons p l ih => simpa using ih (h.suggest hlimit term p)

lemma Page.words (h : Page limit ps results) (words : List (List Char × List UserPayload)) :
    Page limit (ps ++ words.flatMap (·.2))
      (words.foldl (fun results c => c.2.foldl (CleanArch.suggest limit c.1) results) results) := by
  induction words generalizing ps results with
  | nil => simpa using h
  | cons c words ih => simpa using ih (h.payloads hlimit c.1 c.2)

end Loops

lemma Page.length_eq (h : Page limit ps results) :
    results.length = min limit.toNat (ps.map (·.id)).toFinset.card := by
  have hsub : (results.map (·.id)).toFinset ⊆ (ps.map (·.id)).toFinset := fun id hid => by
    obtain ⟨s, hs, rfl⟩ := mem_map.mp (mem_toFinset.mp hid)
    obtain ⟨p, hp, heq, -⟩ := h.from_payload s hs
    exact mem_toFinset.mpr (mem_map.mpr ⟨p, hp, heq.symm⟩)
  have hcard : (results.map (·.id)).toFinset.card = results.length := by
    rw [toFinset_card_of_nodup h.nodup, length_map]
  have hle := h.le
  by_cases hroom : (results.length : Int) < limit
  · have hall : (ps.map (·.id)).toFinset ⊆ (results.map (·.id)).toFinset := fun id hid => by
      obtain ⟨p, hp, rfl⟩ := mem_map.mp (mem_toFinset.mp hid)
      obtain ⟨s, hs, heq⟩ := h.complete hroom p hp
      exact mem_toFinset.mpr (mem_map.mpr ⟨s, hs, heq⟩)
    rw [← hsub.antisymm hall, hcard]
    omega
  · have := hcard.symm.le.trans (Finset.card_le_card hsub)
    omega

lemma autocompleteUsers_holds [PyCase] (h : t.WellFormed) (hpre : normalize pre ≠ [])
    (hlimit : t.wordCount < limit)
    (hids : ∀ ids : List Int, ids.Nodup → (∀ id ∈ ids, ∃ w p, t.Holds w p ∧ id = p.id) →
      (ids.length : Int) ≤ t.wordCount) : ∃ results, (∃ bound, ∀ fuel, bound ≤ fuel →
        autocompleteUsers fuel t pre limit = some results) ∧
      (∀ w p, normalize pre <+: w → t.Holds w p → ∃ s ∈ results, s.id = p.id) ∧
      ∀ s ∈ results, ∃ w p, normalize pre <+: w ∧ t.Holds w p ∧
        s.id = p.id ∧ s.username = p.username ∧ s.fullName = p.fullName := by
  obtain ⟨words, hwords, bound, hbound⟩ := h.autocomplete_holds hpre hlimit
  have hpos : 0 < limit := by
    have := hids [] nodup_nil nofun
    exact lt_of_le_of_lt this hlimit
  have hpage := (page_nil hpos).words hpos words
  set results := words.foldl (fun results c => c.2.foldl (suggest limit c.1) results) []
  have hheld : ∀ s ∈ results, ∃ w p, (normalize pre <+: w ∧ t.Holds w p) ∧
      s.id = p.id ∧ s.username = p.username ∧ s.fullName = p.fullName := fun s hs => by
    obtain ⟨p, hp, hnames⟩ := hpage.from_payload s hs
    obtain ⟨w, hw⟩ := (hwords p).mp (mem_flatMap.mp hp)
    exact ⟨w, p, hw, hnames⟩
  have hle := hids _ hpage.nodup fun id hid => by
    obtain ⟨s, hs, rfl⟩ := mem_map.mp hid
    obtain ⟨w, p, hw, heq, -⟩ := hheld s hs
    exact ⟨w, p, hw.2, heq⟩
  rw [length_map] at hle
  refine ⟨results, ⟨bound, fun fuel hfuel => ?_⟩, fun w p hw hp => ?_, fun s hs => ?_⟩
  · rw [autocompleteUsers, hbound fuel hfuel]
    rfl
  · obtain ⟨c, hc, hmem⟩ := (hwords p).mpr ⟨w, hw, hp⟩
    exact hpage.complete (by omega) p (mem_flatMap.mpr ⟨c, hc, hmem⟩)
  · obtain ⟨w, p, hw, hnames⟩ := hheld s hs
    exact ⟨w, p, hw.1, hw.2, hnames⟩

section Terms

variable [PyCase] {t : PrefixTrie UserPayload} {user old new : UserEntity} {username : String}

/-! ## Terms -/

def UserPayload.HasTerm (p : UserPayload) (w : List Char) : Prop :=
  w ≠ [] ∧ ((∃ u, p.username = some u ∧ normalize u = w) ∨
    ∃ n, p.fullName = some n ∧ n ≠ "" ∧ normalize n = w)

/-- A word that an update from `old` to `new` deletes. -/
def Dropped (old new : UserPayload) (w : List Char) : Prop :=
  (old.username ≠ new.username ∧ ∃ u, old.username = some u ∧ normalize u = w) ∨
    (old.fullName ≠ new.fullName ∧ ∃ n, old.fullName = some n ∧ n ≠ "" ∧ normalize n = w)

omit [PyCase] in
lemma name?_eq_some_iff : user.name? = some name ↔ user.fullName = some name ∧ name ≠ "" := by
  simp [UserEntity.name?, Option.filter_eq_some_iff]

lemma not_dropped_of_same (husername : p.username = q.username)
    (hfullName : p.fullName = q.fullName) (w : List Char) : ¬ Dropped p q w := by
  rintro (⟨h, -⟩ | ⟨h, -⟩)
  · exact h husername
  · exact h hfullName

lemma holds_indexed (user : UserEntity) (h : t.WellFormed) (hu : user.username = some username) :
    (indexed t username user).WellFormed ∧ ∀ w p, (indexed t username user).Holds w p ↔
      t.Holds w p ∨ (user.payload = p ∧ p.HasTerm w) := by
  obtain ⟨hwf, hholds⟩ := h.holds_insert
  unfold indexed
  cases hn : user.name? with
  | none =>
    refine ⟨hwf, fun w p => (hholds w p).trans (or_congr_right ?_)⟩
    constructor
    · rintro ⟨rfl, hw, hne⟩
      exact ⟨rfl, hne, .inl ⟨username, hu, hw⟩⟩
    · rintro ⟨rfl, hne, ⟨u, hu', hw⟩ | ⟨n, hfull, hn', -⟩⟩
      · cases hu.symm.trans hu'
        exact ⟨rfl, hw, hne⟩
      · rw [name?_eq_some_iff.mpr ⟨hfull, hn'⟩] at hn
        cases hn
  | some name =>
    obtain ⟨hfull, hname⟩ := name?_eq_some_iff.mp hn
    obtain ⟨hwf', hholds'⟩ := hwf.holds_insert
    refine ⟨hwf', fun w p => (hholds' w p).trans ?_⟩
    rw [hholds, or_assoc]
    refine or_congr_right ?_
    constructor
    · rintro (⟨rfl, hw, hne⟩ | ⟨rfl, hw, hne⟩)
      · exact ⟨rfl, hne, .inl ⟨username, hu, hw⟩⟩
      · exact ⟨rfl, hne, .inr ⟨name, hfull, hname, hw⟩⟩
    · rintro ⟨rfl, hne, ⟨u, hu', hw⟩ | ⟨n, hfull', -, hw⟩⟩
      · cases hu.symm.trans hu'
        exact .inl ⟨rfl, hw, hne⟩
      · cases hfull.symm.trans hfull'
        exact .inr ⟨rfl, hw, hne⟩

lemma holds_delete_if (h : t.WellFormed) (c : Prop) [Decidable c] :
    (if c then (t.delete key none).2 else t).WellFormed ∧
      ∀ w p, (if c then (t.delete key none).2 else t).Holds w p ↔
        t.Holds w p ∧ ¬ (c ∧ normalize key = w) := by
  split
  · next hc =>
    obtain ⟨hwf, hholds⟩ := h.holds_delete
    exact ⟨hwf, fun w p => by simp [hholds, hc]⟩
  · next hc => exact ⟨h, fun w p => by simp [hc]⟩

lemma holds_pruned (new : UserEntity) (h : t.WellFormed) (hu : old.username = some username) :
    (pruned t username old new).WellFormed ∧ ∀ w p, (pruned t username old new).Holds w p ↔
      t.Holds w p ∧ ¬ Dropped old.payload new.payload w := by
  have hname : ∀ w, (∃ u, old.payload.username = some u ∧ normalize u = w) ↔
      normalize username = w := fun w => by simp [UserEntity.payload, hu]
  obtain ⟨hwf, hholds⟩ := holds_delete_if h (old.username ≠ new.username)
  unfold pruned Dropped
  cases hn : old.name? with
  | none =>
    have hfull : ∀ n, old.payload.fullName = some n → ¬ n ≠ "" := fun n hfull hne => by
      rw [name?_eq_some_iff.mpr ⟨hfull, hne⟩] at hn
      cases hn
    refine ⟨hwf, fun w p => (hholds w p).trans (and_congr_right' (not_congr ?_))⟩
    rw [hname]
    refine ⟨.inl, fun hd => hd.elim id ?_⟩
    rintro ⟨-, n, hfull', hne, -⟩
    exact absurd hne (hfull n hfull')
  | some name =>
    obtain ⟨hfull, hne⟩ := name?_eq_some_iff.mp hn
    have hfullName : ∀ w, (∃ n, old.payload.fullName = some n ∧ n ≠ "" ∧ normalize n = w) ↔
        normalize name = w := fun w => by simp [UserEntity.payload, hfull, hne]
    obtain ⟨hwf', hholds'⟩ := holds_delete_if hwf (old.fullName ≠ new.fullName)
    refine ⟨hwf', fun w p => (hholds' w p).trans ?_⟩
    rw [hholds, hname, hfullName, not_or, and_assoc]
    rfl

lemma removed_eq_pruned (hu : user.username = some username) : removed t username user =
      pruned t username user { user with username := none, fullName := none } := by
  unfold removed pruned
  cases hn : user.name? with
  | none => simp [hu]
  | some name =>
    obtain ⟨hfull, -⟩ := name?_eq_some_iff.mp hn
    simp [hu, hfull]

lemma holds_removed (h : t.WellFormed) (hu : user.username = some username) :
    (removed t username user).WellFormed ∧ ∀ w p, (removed t username user).Holds w p ↔
      t.Holds w p ∧ ¬ user.payload.HasTerm w := by
  obtain ⟨hwf, hholds⟩ := holds_pruned { user with username := none, fullName := none } h hu
  rw [← removed_eq_pruned hu] at hwf hholds
  refine ⟨hwf, fun w p => (hholds w p).trans (and_congr_right fun hp => not_congr ?_)⟩
  have hw := h.ne_nil_of_holds hp
  constructor
  · rintro (⟨-, hdropped⟩ | ⟨-, hdropped⟩)
    · exact ⟨hw, .inl hdropped⟩
    · exact ⟨hw, .inr hdropped⟩
  · rintro ⟨-, ⟨u, hu', hterm⟩ | ⟨n, hfull, hterm⟩⟩
    · refine .inl ⟨?_, u, hu', hterm⟩
      rw [hu']
      exact Option.some_ne_none u
    · refine .inr ⟨?_, n, hfull, hterm⟩
      rw [hfull]
      exact Option.some_ne_none n

lemma SyncedTo.holds {view : UserView} (h : t.WellFormed) (hsync : SyncedTo t view new t') :
    t'.WellFormed ∧ ∀ w p, t'.Holds w p ↔
      (t.Holds w p ∧ ¬ Dropped (view.after new).payload new.payload w) ∨
        (new.payload = p ∧ p.HasTerm w) := by
  obtain ⟨oldName, newName, hold, hnew, rfl⟩ := hsync
  obtain ⟨hwf, hpruned⟩ := holds_pruned new h hold
  obtain ⟨hwf', hindexed⟩ := holds_indexed new hwf hnew
  refine ⟨hwf', fun w p => ?_⟩
  rw [synced, hindexed, hpruned]

end Terms

/-! ## Names -/

section Names

variable [PyCase]

structure UserPayload.Named (p : UserPayload) : Prop where
  username : ∃ u : Username, p.username = some u.text
  fullName : ∀ n, p.fullName = some n → ∃ f : FullName, f.text = n

lemma Username.normalize_text (u : Username) : normalize u.text = u.text.toList := by
  rw [normalize, u.strip_text, u.lower_text]

lemma FullName.normalize_text (f : FullName) : normalize f.text = (PyCase.lower f.text).toList := by
  rw [normalize, f.strip_text]

lemma UserPayload.Named.hasTerm_iff {p : UserPayload} (h : p.Named) :
    p.HasTerm w ↔ (∃ u, p.username = some u ∧ (PyCase.lower u).toList = w) ∨
      ∃ n, p.fullName = some n ∧ (PyCase.lower n).toList = w := by
  obtain ⟨u, hu⟩ := h.username
  constructor
  · rintro ⟨-, ⟨u', hu', hw⟩ | ⟨n, hn, -, hw⟩⟩
    · cases hu.symm.trans hu'
      exact .inl ⟨_, hu, by rw [u.lower_text, ← u.normalize_text, hw]⟩
    · obtain ⟨f, rfl⟩ := h.fullName n hn
      exact .inr ⟨_, hn, f.normalize_text ▸ hw⟩
  · rintro (⟨u', hu', hw⟩ | ⟨n, hn, hw⟩)
    · cases hu.symm.trans hu'
      rw [u.lower_text] at hw
      subst hw
      exact ⟨mt String.toList_eq_nil_iff.mp u.ne_empty, .inl ⟨_, hu, u.normalize_text⟩⟩
    · obtain ⟨f, rfl⟩ := h.fullName n hn
      subst hw
      exact ⟨mt String.toList_eq_nil_iff.mp f.lower_ne_empty,
        .inr ⟨_, hn, f.ne_empty, f.normalize_text⟩⟩

lemma named_newUser (payload : UserCreate) (husername : a.username = payload.username.text)
    (hfullName : a.fullName = payload.fullName.map FullName.text) (id : Int) :
    (UserRepository.newUser id now a).payload.Named where
  username := ⟨payload.username, congrArg some husername⟩
  fullName n hn := by
    obtain ⟨f, -, hf⟩ := Option.map_eq_some_iff.mp (hfullName.symm.trans hn)
    exact ⟨f, hf⟩

lemma named_changes (payload : UserUpdate) (h : user.payload.Named) :
    (payload.changes.apply user).payload.Named := by
  refine ⟨?_, fun n hn => ?_⟩
  · cases hu : payload.username.join with
    | none => simpa [UserEntity.payload, UserChanges.apply, changes, hu] using h.username
    | some u => exact ⟨u, by simp [UserEntity.payload, UserChanges.apply, changes, hu]⟩
  · cases hf : payload.fullName.join with
    | none =>
      refine h.fullName n ?_
      simpa [UserEntity.payload, UserChanges.apply, changes, hf] using hn
    | some f =>
      refine ⟨f, ?_⟩
      simpa [UserEntity.payload, UserChanges.apply, changes, hf] using hn

lemma named_assigned {payload : UserUpdate} (h : user.payload.Named)
    (hne : (payload.assign user).username ≠ none) : (payload.assign user).payload.Named := by
  refine ⟨?_, fun n hn => ?_⟩
  · cases hu : payload.username with
    | none => simpa [UserEntity.payload, assign, hu] using h.username
    | some u =>
      cases u with
      | none => simp [assign, hu] at hne
      | some u => exact ⟨u, by simp [UserEntity.payload, assign, hu]⟩
  · cases hf : payload.fullName with
    | none =>
      refine h.fullName n ?_
      simpa [UserEntity.payload, assign, hf] using hn
    | some f =>
      cases f with
      | none => simp [UserEntity.payload, assign, hf] at hn
      | some f => exact ⟨f, by simpa [UserEntity.payload, assign, hf] using hn⟩

end Names

/-!
## The page of suggestions

`autocomplete` cuts the list of terms to `limit` before `autocomplete_users` takes the users from
it, and several terms may lead to one user. So the page has the users of the first `limit` terms
(`page_users_of_first_terms`), and may be short although more users match.
-/

section Indexing

variable [PyCase] {users : List UserEntity}

/-- The words under which `_index_user_in_trie` inserts the user. -/
def UserEntity.searchTerms (user : UserEntity) : List (List Char) :=
  match user.username with
  | none => []
  | some username => ((username :: user.name?.toList).map normalize).filter (· ≠ [])

/-- `_index_user_in_trie` of one user after another. Without a user name it raises before it changes
the trie. -/
def indexUsers (users : List UserEntity) : PrefixTrie UserPayload :=
  users.foldl (fun t user => match user.username with
    | none => t
    | some username => indexed t username user) {}

/-- The ids of the users with a term in `terms`. -/
def termOwners (users : List UserEntity) (terms : List Char → Bool) : Finset Int :=
  ((users.filter fun user => user.searchTerms.any terms).map (·.id)).toFinset

lemma mem_termOwners {id : Int} : id ∈ termOwners users terms ↔
      ∃ user ∈ users, user.id = id ∧ ∃ w ∈ user.searchTerms, terms w = true := by
  simp only [termOwners, mem_toFinset, mem_map, mem_filter, any_eq_true]
  grind

lemma mem_searchTerms {user : UserEntity} {username : String} (hu : user.username = some username) :
    w ∈ user.searchTerms ↔ user.payload.HasTerm w := by
  have hname : (∃ n, user.name? = some n ∧ normalize n = w) ↔
      ∃ n, user.fullName = some n ∧ n ≠ "" ∧ normalize n = w := by
    simp only [name?_eq_some_iff, and_assoc]
  simp only [UserEntity.searchTerms, UserPayload.HasTerm, UserEntity.payload, hu, ← hname]
  simp [and_comm, @eq_comm _ w (normalize username)]

lemma holds_indexUsers (users : List UserEntity) :
    (indexUsers users).WellFormed ∧ ∀ w p, (indexUsers users).Holds w p ↔
      ∃ user ∈ users, user.payload = p ∧ w ∈ user.searchTerms := by
  induction users using reverseRecOn with
  | nil =>
    refine ⟨wellFormed_new, fun w p => ?_⟩
    simp [indexUsers, Holds, entry, TrieNode.entry_new]
  | append_singleton users user ih =>
    obtain ⟨hwf, hholds⟩ := ih
    simp only [indexUsers, foldl_append, foldl_cons, foldl_nil] at hwf hholds ⊢
    simp only [mem_append, mem_singleton, or_and_right, exists_or, exists_eq_left]
    cases hu : user.username with
    | none => exact ⟨hwf, fun w p => by simp [hholds, UserEntity.searchTerms, hu]⟩
    | some username =>
      obtain ⟨hwf', hholds'⟩ := holds_indexed user hwf hu
      refine ⟨hwf', fun w p => ?_⟩
      rw [hholds', hholds, mem_searchTerms hu]
      exact or_congr_right (and_congr_right fun hp => by rw [hp])

/-- The users of a page are those of the first `limit` terms that start with the prefix, ordered by
frequency and then by the alphabet. A blank prefix has no terms. -/
theorem page_users_of_first_terms (users : List UserEntity) (pre : String) (limit : Int)
    (hlimit : 1 ≤ limit) :
    ∃ words : List (Completion UserPayload),
      (∀ w payloads frequency, (w, payloads, frequency) ∈ words ↔
        normalize pre ≠ [] ∧ normalize pre <+: w ∧
          (indexUsers users).entry w = some (payloads, frequency)) ∧
      words.Pairwise Before ∧
      ∃ bound, ∀ fuel, bound ≤ fuel → ∃ results,
        autocompleteUsers fuel (indexUsers users) pre limit = some results ∧
        (results.map (·.id)).Nodup ∧
        results.length = min limit.toNat
          (termOwners users fun w => (words.take limit.toNat).any (·.1 == w)).card ∧
        results.length ≤ min limit.toNat
          (termOwners users fun w => (normalize pre).isPrefixOf w).card := by
  obtain ⟨hwf, hholds⟩ := holds_indexUsers users
  obtain ⟨words, hwords, hsorted, -, bound, hbound⟩ := hwf.autocomplete_words pre limit hlimit
  refine ⟨words, hwords, hsorted, bound, fun fuel hfuel => ?_⟩
  have hpage := (page_nil hlimit).words hlimit
    ((words.take limit.toNat).map fun c => (c.1, c.2.1))
  have hids : ((((words.take limit.toNat).map fun c => (c.1, c.2.1)).flatMap (·.2)).map
      (·.id)).toFinset = termOwners users fun w => (words.take limit.toNat).any (·.1 == w) := by
    ext id
    rw [mem_termOwners]
    simp only [mem_toFinset, mem_map, flatMap_map, mem_flatMap, any_eq_true, beq_iff_eq]
    constructor
    · rintro ⟨p, ⟨⟨w, payloads, f⟩, hc, hp⟩, rfl⟩
      have hentry := ((hwords w payloads f).mp (mem_of_mem_take hc)).2.2
      obtain ⟨user, huser, rfl, hw⟩ := (hholds w p).mp ⟨payloads, f, hentry, hp⟩
      exact ⟨user, huser, rfl, w, hw, _, hc, rfl⟩
    · rintro ⟨user, huser, rfl, _, hw, ⟨w, payloads, f⟩, hc, rfl⟩
      have hentry := ((hwords w payloads f).mp (mem_of_mem_take hc)).2.2
      obtain ⟨payloads', f', hentry', hp⟩ := (hholds w _).mpr ⟨user, huser, rfl, hw⟩
      cases hentry.symm.trans hentry'
      exact ⟨_, ⟨_, hc, hp⟩, rfl⟩
  have hlength := hpage.length_eq
  rw [nil_append, hids] at hlength
  refine ⟨_, by rw [autocompleteUsers, hbound fuel hfuel]; rfl, hpage.nodup, hlength, ?_⟩
  rw [hlength]
  refine min_le_min_left _ (Finset.card_le_card fun id hid => ?_)
  obtain ⟨user, huser, hid, w, hw, hfirst⟩ := mem_termOwners.mp hid
  obtain ⟨c, hc, heq⟩ := any_eq_true.mp hfirst
  cases eq_of_beq heq
  have hpre := ((hwords c.1 c.2.1 c.2.2).mp (mem_of_mem_take hc)).2.1
  exact mem_termOwners.mpr ⟨user, huser, hid, c.1, hw, isPrefixOf_iff_prefix.mpr hpre⟩

end Indexing

/-- Three users whose user names start with `ann`; two of them have the full name `ann`. -/
def anns : List UserEntity :=
  [{ registeredAnn with id := 1, username := "ann1", fullName := "ann" },
    { registeredAnn with id := 2, username := "ann2", fullName := "ann" },
    { registeredAnn with id := 3, username := "ann3", fullName := none }]

theorem page_users_of_first_terms_anns :
    (1 : Int) ≤ 3 ∧ ∃ words : List (Completion UserPayload), words.Pairwise Before ∧
      ∃ bound, ∀ fuel, bound ≤ fuel → ∃ results,
        @autocompleteUsers asciiCase fuel (@indexUsers asciiCase anns) "ann" 3 = some results ∧
        results.length = min 3 (@termOwners asciiCase anns fun w =>
          (words.take 3).any (·.1 == w)).card := by
  obtain ⟨words, -, hsorted, bound, h⟩ :=
    @page_users_of_first_terms asciiCase anns "ann" 3 (by decide)
  refine ⟨by decide, words, hsorted, bound, fun fuel hfuel => ?_⟩
  obtain ⟨results, hresults, -, hlength, -⟩ := h fuel hfuel
  exact ⟨results, hresults, hlength⟩

/-- The first three terms `ann`, `ann1` and `ann2` belong to two users; a third one matches. -/
theorem page_short : (@termOwners asciiCase anns fun w => "ann".toList.isPrefixOf w).card = 3 ∧
      ∀ fuel, 5 ≤ fuel →
        (@autocompleteUsers asciiCase fuel (@indexUsers asciiCase anns) "ann" 3).map List.length =
          some 2 := by
  let := asciiCase
  refine ⟨by decide +kernel, fun fuel hfuel => ?_⟩
  rw [autocompleteUsers, autocomplete_of_sorted
    (((indexUsers anns).root.walk "ann".toList).elim [] fun node => node.completions "ann".toList)
    (by decide +kernel) (by decide +kernel) (by decide +kernel) hfuel]
  decide +kernel

end CleanArch
