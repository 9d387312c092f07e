import CleanArch.Steps.Along
import CleanArch.Users.Requests

/-!
# Stored users behind the Bloom filter

`get_user_by_id` and `get_user_by_id_xfetch` reject an id that the Bloom filter does not contain, so
every stored user has to be in the filter (`Reachable`). Only `create_user_with_initial_post` does
not add its user.
-/

namespace CleanArch

open Assoc Async Objects Steps UserDb UserRepository UserWorld

section Reachable

variable [PyCase] [Sha256] {deps : UserDeps} {w : UserWorld}

def Reachable (deps : UserDeps) (w : UserWorld) : Prop :=
  ∀ id, w.db.users.entity? id ≠ none → ∀ o id',
    (w.run (getUserById deps id) o).1 ≠ .error (.userNotFound id') ∧
      ∀ beta now randVal,
        (w.run (getUserByIdXfetch deps id beta now randVal) o).1 ≠ .error (.userNotFound id')

def Known (deps : UserDeps) (w : UserWorld) : Prop :=
  deps.bloom = true → ∀ id, w.db.users.entity? id ≠ none →
    w.index.bloom.contains (.number id) = true

lemma reachable_iff_known : Reachable deps w ↔ Known deps w := by
  constructor
  · intro h hb id hid
    cases hc : w.index.bloom.contains (.number id) with
    | true => rfl
    | false =>
      have hrej : (w.run (getUserById deps id) fun _ => {}).1 = .error (.userNotFound id) :=
        (runs_getUserById_rejected hb hc).run_any _
      exact absurd hrej (h id hid _ id).1
  · intro h id hid o id'
    have hstored : find w.db.users.store id ≠ none := fun hn => hid (by
      simp [entity?, hn])
    refine ⟨fun herr => ?_, fun beta now randVal herr => ?_⟩
    · have hgot := (runs_getUserById (w := w) deps id).run_any o
      rw [herr] at hgot
      generalize (w.run (getUserById deps id) o).2 = w' at hgot
      cases hgot with
      | rejected hb hc => rw [h hb id hid] at hc; cases hc
      | missing hm hr => exact hstored hr
    · have hgot := (runs_getUserByIdXfetch (w := w) deps id beta now randVal).run_any o
      rw [herr] at hgot
      generalize (w.run (getUserByIdXfetch deps id beta now randVal) o).2 = w' at hgot
      cases hgot with
      | rejected hb hc => rw [h hb id hid] at hc; cases hc
      | missing locks hr => exact hstored hr

/-! ## Calls -/

omit [Sha256] in
/-- A request that neither creates a user nor puts back a snapshot keeps every stored id one that
was stored before. -/
lemma entity?_exec_ne_none {db : UserDb} (h : db.users.Ok) {c : RepoCmd}
    (hcreate : ∀ a, c ≠ .create a) (hc : c.rollsBack = false) (id : Int)
    (hid : (c.exec o db).2.users.entity? id ≠ none) : db.users.entity? id ≠ none := by
  intro hn
  refine hid ?_
  cases c with
  | create a => exact absurd rfl (hcreate a)
  | update => simp [RepoCmd.exec, onUsers, h.entity?_update, hn]
  | updateNid => simp [RepoCmd.exec, onUsers, h.entity?_updateNid, hn]
  | updatePermissions =>
    simp [RepoCmd.exec, onUsers, h.entity?_updatePermissions, hn]
  | updateWithOptimisticLock =>
    simp [RepoCmd.exec, onUsers, h.entity?_updateWithOptimisticLock, hn]
  | delete => simp [RepoCmd.exec, onUsers, entity?_delete, hn]
  | setPasswordHash =>
    simpa [RepoCmd.exec, setPasswordHash, entity?] using hn
  | aexit =>
    cases hc
    exact hn
  | _ => exact hn

def UserCall.updates : UserCall → Bool
  | .registerUser _ | .createUserWithInitialPost .. => false
  | _ => true

omit [Sha256] in
lemma UserCall.updates_may {call : UserCall} (hc : call.updates = true) (h : call.May (.repo c)) :
    (∀ a, c ≠ .create a) ∧ c.rollsBack = false := by
  rcases h with h | h
  · cases c <;> simp_all [RepoCmd.reads, RepoCmd.rollsBack]
  · cases call with
    | registerUser | createUserWithInitialPost => cases hc
    | authenticateUser =>
      rcases h with ⟨userId, hash, rfl⟩ | ⟨r, hash, rfl⟩ <;>
        exact ⟨fun _ h => (by cases h), rfl⟩
    | getUserById | getUserByIdXfetch => cases h
    | _ =>
      cases h
      exact ⟨fun _ h => (by cases h), rfl⟩

lemma UserCall.entity?_of_updates (deps : UserDeps) {call : UserCall} (hc : call.updates = true)
    (hok : w.db.users.Ok) :
    (w.run (call.prog deps) o).2.db.users.Ok ∧
      (w.run (call.prog deps) o).2.index.bloom = w.index.bloom ∧
      ∀ id, (w.run (call.prog deps) o).2.db.users.entity? id ≠ none →
        w.db.users.entity? id ≠ none := by
  refine UserCall.invariant deps call (F := fun w' => w'.db.users.Ok ∧
    w'.index.bloom = w.index.bloom ∧ ∀ id, w'.db.users.entity? id ≠ none →
      w.db.users.entity? id ≠ none) ?_ ⟨hok, rfl, fun _ h => h⟩ o
  rintro c o w' hmay ⟨hok', hbloom, hids⟩
  cases c with
  | outside | redis => exact ⟨hok', hbloom, hids⟩
  | index c =>
    refine ⟨hok', ?_, hids⟩
    cases c with
    | trieInsert key | trieDelete key => cases key <;> exact hbloom
    | bloomAdd =>
      have hreg : call.registers = true := hmay
      cases call <;> simp_all [UserCall.updates, UserCall.registers]
    | bloomContains => exact hbloom
  | repo =>
    obtain ⟨hcreate, hroll⟩ := UserCall.updates_may hc hmay
    exact ⟨hok'.exec o hroll, hbloom,
      fun id hid => hids id (entity?_exec_ne_none hok' hcreate hroll id hid)⟩

omit [PyCase] [Sha256] in
lemma entity?_create_ne_none {s : UserRepository} (hok : s.Ok)
    (id : Int) : (s.create now a).2.entity? id ≠ none ↔
      id = s.currentId + 1 ∨ s.entity? id ≠ none := by
  rw [hok.entity?_create]
  by_cases hid : id = s.currentId + 1 <;> simp [hid]

def UserStep.FilterReady (deps : UserDeps) (w : UserWorld) : UserStep → Prop
  | .call (.createUserWithInitialPost payload _ _ uow) _ =>
    deps.bloom = true → uow.or deps.uow ≠ none → payload.Free w.db.users →
      w.index.bloom.contains (.number (w.db.users.currentId + 1)) = true
  | _ => True

lemma known_registerUser (hok : w.db.users.Ok) (h : Known deps w) :
    (w.run ((registerUser deps payload).bind fun _ => .ret ()) o).2.db.users.Ok ∧
      Known deps (w.run ((registerUser deps payload).bind fun _ => .ret ()) o).2 := by
  refine UserWorld.Runs.run_any (Q := fun _ w' => w'.db.users.Ok ∧ Known deps w') ?_ o
  refine runs_bind.mpr (runs_registerUser deps payload (fun _ _ => ⟨hok, h⟩) ?_)
  refine fun _ now hash _ => ⟨hok.create now _, fun hb id hid => ?_⟩
  simp only [registered, hb, if_true]
  refine BloomFilter.contains_add _ _ _ ?_
  rcases (entity?_create_ne_none hok id).mp hid with rfl | hid
  · exact .inl rfl
  · exact .inr (h hb id hid)

lemma known_createUserWithInitialPost (hok : w.db.users.Ok) (h : Known deps w) :
    (w.run ((createUserWithInitialPost deps payload title content uow).bind fun _ => .ret ())
        o).2.db.users.Ok ∧
      (Known deps (w.run ((createUserWithInitialPost deps payload title content uow).bind
          fun _ => .ret ()) o).2 ↔
        UserStep.FilterReady deps w (.call (.createUserWithInitialPost payload title content uow)
          o)) := by
  refine UserWorld.Runs.run_any (Q := fun _ w' => w'.db.users.Ok ∧ (Known deps w' ↔
    UserStep.FilterReady deps w (.call (.createUserWithInitialPost payload title content uow) o)))
    (runs_bind.mpr (runs_createUserWithInitialPost deps payload title content uow ?_ ?_)) o
  · intro hno e db hdb
    refine ⟨hdb ▸ hok, iff_of_true (fun hb id hid => ?_) fun _ huow hfree => ?_⟩
    · exact h hb id (by rwa [hdb] at hid)
    · rcases hno with hnot | hnone
      · exact absurd hfree hnot
      · exact absurd hnone huow
  · intro hfree huow now hash _ db hdb
    have hids : ∀ id, db.users.entity? id ≠ none ↔
        id = w.db.users.currentId + 1 ∨ w.db.users.entity? id ≠ none := fun id => by
      rw [hdb]
      exact entity?_create_ne_none hok id
    refine ⟨hdb ▸ hok.create now _, fun hk hb _ _ => ?_, fun hready hb id hid => ?_⟩
    · exact hk hb _ ((hids _).mpr (.inl rfl))
    · rcases (hids id).mp hid with rfl | hid
      · exact hready hb huow hfree
      · exact h hb id hid

lemma UserStep.known (hok : w.db.users.Ok) (h : Known deps w) (step : UserStep) :
    (step.exec deps w).db.users.Ok ∧ (Known deps (step.exec deps w) ↔ step.FilterReady deps w) := by
  cases step with
  | expire e => cases e <;> exact ⟨hok, iff_of_true h trivial⟩
  | call c o =>
    have hupdates : c.updates = true → (w.run (c.prog deps) o).2.db.users.Ok ∧
        Known deps (w.run (c.prog deps) o).2 := fun hc => by
      obtain ⟨hok', hbloom, hids⟩ := UserCall.entity?_of_updates deps hc hok
      refine ⟨hok', fun hb id hid => ?_⟩
      rw [hbloom]
      exact h hb id (hids id hid)
    cases c with
    | registerUser payload =>
      obtain ⟨hok', hknown⟩ := known_registerUser hok h
      exact ⟨hok', iff_of_true hknown trivial⟩
    | createUserWithInitialPost payload title content uow =>
      exact known_createUserWithInitialPost hok h
    | _ => exact ⟨(hupdates rfl).1, iff_of_true (hupdates rfl).2 trivial⟩

/-- Every stored user can be reached, in every state of a history, if and only if the filter is
ready whenever `create_user_with_initial_post` creates a user. -/
theorem reachable_iff (deps : UserDeps) (w : UserWorld) (hok : w.db.users.Ok)
    (hstart : Reachable deps w) (steps : List UserStep) :
    Always (UserStep.exec deps) (Reachable deps) w steps ↔
      Along (UserStep.exec deps) (UserStep.FilterReady deps) w steps := by
  refine always_iff_along (I := fun w => w.db.users.Ok) ?_ ?_ hok hstart
  · exact fun w step hok h => (UserStep.known hok (reachable_iff_known.mp h) step).1
  · intro w step hok h
    rw [reachable_iff_known]
    exact (UserStep.known hok (reachable_iff_known.mp h) step).2

end Reachable

/-- A registration, and a user with a post. -/
def registerThenPost : List (@UserStep asciiCase) :=
  letI := asciiCase
  let bob := { bobCreate with email := "bob@example.com" }
  [.call (.registerUser annCreate) fun _ => {},
    .call (.createUserWithInitialPost bob "title" "text" none) fun _ => {}]

theorem reachable_iff_register :
    letI := asciiCase
    letI := zeroDigest
    (empty.db.users.Ok ∧ Reachable {} empty) ∧
      (Always (UserStep.exec {}) (Reachable {}) empty registerThenPost ↔
        Along (UserStep.exec {}) (UserStep.FilterReady {}) empty registerThenPost) :=
  letI := asciiCase
  letI := zeroDigest
  have hok : empty.db.users.Ok := ok_empty
  have hstart : Reachable {} empty := fun _ h => absurd rfl h
  ⟨⟨hok, hstart⟩, reachable_iff {} empty hok hstart _⟩

/-- The world after `create_user_with_initial_post`, from nothing. -/
def afterInitialPost : UserWorld :=
  letI := asciiCase
  letI := zeroDigest
  UserStep.exec {} .empty (.call (.createUserWithInitialPost annCreate "title" "text" none)
    fun _ => {})

/-- User 1 is stored, and not found. -/
theorem initial_post_not_found :
    letI := asciiCase
    letI := zeroDigest
    afterInitialPost.db.users.entity? 1 ≠ none ∧
      (afterInitialPost.run (getUserById {} 1) fun _ => {}).1 = .error (.userNotFound 1) ∧
      (afterInitialPost.run (getUserByIdXfetch {} 1 1 none none) fun _ => {}).1 =
        .error (.userNotFound 1) := by
  decide +kernel

end CleanArch
