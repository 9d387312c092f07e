import CleanArch.Ledger.Velocity

/-!
# Inspections of the velocity

`get_account_velocity` prunes what it reads, with the window of its caller. Nobody notices if no
inspection prunes into the window of a later evaluation (`Unseen`).
-/

namespace CleanArch

open Function List

def FraudEvent.isInspection : FraudEvent → Bool
  | .call (.inspect ..) _ _ => true
  | _ => false

def FraudEvent.windowStart? (account : UUID) : FraudEvent → Option Time
  | .call (.evaluate source _ _) now _ =>
    if source = account then some (now - defaultVelocityWindowSeconds) else none
  | _ => none

def windowStarts (account : UUID) (es : List FraudEvent) : List Time :=
  es.filterMap (·.windowStart? account)

def FraudEvent.Unseen (later : List FraudEvent) : FraudEvent → Prop
  | .call (.inspect account windowSeconds) now _ =>
    ∀ w ∈ windowStarts account later, now - windowSeconds ≤ w
  | _ => True

def Unseen : List FraudEvent → Prop
  | [] => True
  | e :: es => e.Unseen es ∧ Unseen es

/-! ## Two runs -/

structure SameWindows (es : List FraudEvent) (s s' : World) : Prop where
  blacklist : s.blacklist = s'.blacklist
  memBlacklist : s.memBlacklist = s'.memBlacklist
  redis : ∀ account, ∀ w ∈ windowStarts account es,
    redisWindow w (s.velocity account) = redisWindow w (s'.velocity account)
  memory : ∀ account, ∀ w ∈ windowStarts account es,
    memoryWindow w (s.memVelocity account) = memoryWindow w (s'.memVelocity account)

namespace SameWindows

lemma refl (es : List FraudEvent) (s : World) : SameWindows es s s :=
  ⟨rfl, rfl, fun _ _ _ => rfl, fun _ _ _ => rfl⟩

lemma tail (h : SameWindows (e :: es) s s') : SameWindows es s s' := by
  have hsub : ∀ account, ∀ w ∈ windowStarts account es, w ∈ windowStarts account (e :: es) :=
    fun account w hw => by
      unfold windowStarts at hw ⊢
      rw [filterMap_cons]
      split
      · exact hw
      · exact mem_cons_of_mem _ hw
  exact ⟨h.blacklist, h.memBlacklist, fun a w hw => h.redis a w (hsub a w hw),
    fun a w hw => h.memory a w (hsub a w hw)⟩

lemma update_redis (h : SameWindows es s s')
    (hxy : ∀ w ∈ windowStarts a es, redisWindow w xs = redisWindow w ys) :
    SameWindows es { s with velocity := update s.velocity a xs }
      { s' with velocity := update s'.velocity a ys } := by
  refine ⟨h.blacklist, h.memBlacklist, fun b w hw => ?_, h.memory⟩
  by_cases hb : b = a
  · subst hb
    simpa only [update_self] using hxy w hw
  · simpa only [update_of_ne hb] using h.redis b w hw

lemma update_memory (h : SameWindows es s s')
    (hxy : ∀ w ∈ windowStarts a es, memoryWindow w xs = memoryWindow w ys) :
    SameWindows es { s with memVelocity := update s.memVelocity a xs }
      { s' with memVelocity := update s'.memVelocity a ys } := by
  refine ⟨h.blacklist, h.memBlacklist, h.redis, fun b w hw => ?_⟩
  by_cases hb : b = a
  · subst hb
    simpa only [update_self] using hxy w hw
  · simpa only [update_of_ne hb] using h.memory b w hw

lemma write (h : SameWindows es s s') (a : UUID) (x : VelocityEntry) (how : VelocityWrite) :
    SameWindows es (how.after a x s) (how.after a x s') := by
  have hredis : SameWindows es (s.addRedis a x) (s'.addRedis a x) := h.update_redis fun w hw => by
    rw [redisWindow_append, redisWindow_append, h.redis a w hw]
  have hmemory : ∀ {s s' : World}, SameWindows es s s' →
      SameWindows es (s.addMemory a (x.score, x.amount)) (s'.addMemory a (x.score, x.amount)) :=
    fun h => h.update_memory fun w hw => by
      rw [memoryWindow_append, memoryWindow_append, h.memory a w hw]
  cases how with
  | redis => exact hredis
  | memory => exact hmemory h
  | both => exact hmemory hredis

lemma read (h : SameWindows es s s')
    (hredis : redisWindow w0 (s.velocity a) = redisWindow w0 (s'.velocity a))
    (hmemory : memoryWindow w0 (s.memVelocity a) = memoryWindow w0 (s'.memVelocity a))
    (how : VelocityRead) : SameWindows es (how.after a w0 s) (how.after a w0 s') := by
  have hr : SameWindows es (s.pruneRedis a w0) (s'.pruneRedis a w0) :=
    h.update_redis fun w _ => by rw [hredis]
  cases how with
  | redis => exact hr
  | memory => exact h.update_memory fun w _ => by rw [hmemory]
  | both => exact hr.update_memory fun w _ => congrArg (memoryWindow w) hmemory

lemma read_left (h : SameWindows es s s') (hw0 : ∀ w ∈ windowStarts a es, w0 ≤ w)
    (how : VelocityRead) : SameWindows es (how.after a w0 s) s' := by
  have hredis : SameWindows es (s.pruneRedis a w0) s' := by
    refine ⟨h.blacklist, h.memBlacklist, fun b w hw => ?_, h.memory⟩
    by_cases hb : b = a
    · subst hb
      simp only [World.pruneRedis, update_self, redisWindow_of_le (hw0 w hw)]
      exact h.redis b w hw
    · simpa only [World.pruneRedis, update_of_ne hb] using h.redis b w hw
  have hmemory : ∀ {s : World}, SameWindows es s s' → SameWindows es (s.pruneMemory a w0) s' := by
    intro s h
    refine ⟨h.blacklist, h.memBlacklist, h.redis, fun b w hw => ?_⟩
    by_cases hb : b = a
    · subst hb
      simp only [World.pruneMemory, update_self, memoryWindow_of_le (hw0 w hw)]
      exact h.memory b w hw
    · simpa only [World.pruneMemory, update_of_ne hb] using h.memory b w hw
  cases how with
  | redis => exact hredis
  | memory => exact hmemory h
  | both => exact hmemory hredis

/-- **One event of both runs**: the assessment is the same, and the worlds agree after it. -/
theorem exec (useRedis : Bool) (h : SameWindows (e :: es) s s') (he : e.isInspection = false) :
    (e.exec useRedis s).1 = (e.exec useRedis s').1 ∧
      SameWindows es (e.exec useRedis s).2 (e.exec useRedis s').2 := by
  match e with
  | .call (.record source amount) now world =>
    rw [exec_record, exec_record]
    exact ⟨rfl, h.tail.write source _ _⟩
  | .call (.evaluate source destination amount) now world =>
    have hw : now - defaultVelocityWindowSeconds ∈
        windowStarts source (.call (.evaluate source destination amount) now world :: es) := by
      simp [windowStarts, FraudEvent.windowStart?]
    have hredis := h.redis source _ hw
    have hmemory := h.memory source _ hw
    have hcheck : evaluationCheck useRedis s now world destination =
        evaluationCheck useRedis s' now world destination := by
      unfold evaluationCheck
      rw [h.blacklist, h.memBlacklist]
    have hread : evaluationRead useRedis s now world destination =
        evaluationRead useRedis s' now world destination := by
      unfold evaluationRead
      rw [hcheck]
    simp only [exec_evaluate]
    rw [hcheck, hread]
    refine ⟨?_, h.tail.read hredis hmemory _⟩
    have hvelocity : ∀ how : VelocityRead,
        how.velocity source (now - defaultVelocityWindowSeconds) s =
          how.velocity source (now - defaultVelocityWindowSeconds) s' := by
      intro how
      cases how with
      | redis => simp only [VelocityRead.velocity, hredis]
      | memory | both => simp only [VelocityRead.velocity, hmemory]
    rw [hvelocity]
  | .expire account => exact ⟨rfl, h.tail.update_redis fun _ _ => rfl⟩

end SameWindows

/-! ## Histories -/

def withoutInspections (es : List FraudEvent) : List FraudEvent :=
  es.filter fun e => !e.isInspection

lemma SameWindows.assessments_eq (h : SameWindows es s s') (hunseen : Unseen es) :
    assessments useRedis s es = assessments useRedis s' (withoutInspections es) := by
  -- by induction over the history; only the left run has the inspections
  induction es generalizing s s' with
  | nil => rfl
  | cons e es ih =>
    cases he : e.isInspection with
    | false =>
      obtain ⟨hsame, hagree⟩ := h.exec useRedis he
      have hfilter : withoutInspections (e :: es) = e :: withoutInspections es := by
        simp [withoutInspections, he]
      rw [hfilter, assessments, assessments, hsame, ih hagree hunseen.2]
    | true =>
      have hfilter : withoutInspections (e :: es) = withoutInspections es := by
        simp [withoutInspections, he]
      match e, he with
      | .call (.inspect account windowSeconds) now world, _ =>
        rw [assessments, exec_inspect]
        exact ih (h.tail.read_left hunseen.1 _) hunseen.2

/-- **Inspections do not influence the assessments** of a history in which no inspection prunes into
the window of a later evaluation: without the inspections they are the same, with any Redis and from
any world. -/
theorem inspections_unseen (useRedis : Bool) (s : World) (es : List FraudEvent)
    (h : Unseen es) : assessments useRedis s es = assessments useRedis s (withoutInspections es) :=
  (SameWindows.refl es s).assessments_eq h

def FraudEvent.now? : FraudEvent → Option Time
  | .call _ now _ => some now
  | .expire _ => none

lemma unseen_of_long (hclock : (es.filterMap (·.now?)).Pairwise (· ≤ ·))
    (hlong : ∀ account windowSeconds now world,
      .call (.inspect account windowSeconds) now world ∈ es → 300 ≤ windowSeconds) : Unseen es := by
  induction es with
  | nil => trivial
  | cons e es ih =>
    have hrest : (es.filterMap (·.now?)).Pairwise (· ≤ ·) :=
      hclock.sublist ((sublist_cons_self e es).filterMap _)
    refine ⟨?_, ih hrest fun a k now world hmem => ?_⟩
    swap
    · exact hlong a k now world (mem_cons_of_mem _ hmem)
    match e with
    | .call (.record ..) _ _ => trivial
    | .call (.evaluate ..) _ _ => trivial
    | .expire _ => trivial
    | .call (.inspect account windowSeconds) now world =>
      intro w hw
      obtain ⟨later, hmem, hlater⟩ := mem_filterMap.mp hw
      have hk : (300 : Time) ≤ windowSeconds := by
        exact_mod_cast hlong account windowSeconds now world mem_cons_self
      match later, hlater with
      | .call (.evaluate source _ _) now' _, hlater =>
        have hle : now ≤ now' :=
          (pairwise_cons.mp hclock).1 now' (mem_filterMap.mpr ⟨_, hmem, rfl⟩)
        simp only [FraudEvent.windowStart?] at hlater
        split at hlater
        · cases hlater
          unfold defaultVelocityWindowSeconds
          linarith
        · cases hlater

/-! ### Three transfers, and an inspection -/

/-- Three transfers of an account, an inspection with the window `windowSeconds` ten seconds later,
and an evaluation. -/
def inspectedBurst (windowSeconds : Nat) : List FraudEvent :=
  let calm : Nat → Answer := fun _ => {}
  [.call (.record 1 10) 0 calm, .call (.record 1 10) 0 calm, .call (.record 1 10) 0 calm,
    .call (.inspect 1 windowSeconds) 10 calm, .call (.evaluate 1 2 10) 11 calm]

/-- An hour is long enough. -/
theorem long_inspection : assessments true {} (inspectedBurst 3600) =
    assessments true {} (withoutInspections (inspectedBurst 3600)) := by
  refine inspections_unseen true {} (inspectedBurst 3600) (unseen_of_long (by decide +kernel) ?_)
  intro account windowSeconds now world hmem
  simp only [inspectedBurst, mem_cons, FraudEvent.call.injEq, reduceCtorEq, false_and,
    FraudCall.inspect.injEq, not_mem_nil, or_false, false_or] at hmem
  omega

/-- A window of a second removes the three transfers: the next one is approved, and without the
inspection it is flagged. -/
theorem short_inspection : assessments true {} (inspectedBurst 1) = [.ok ⟨0, .approved, []⟩] ∧
      assessments true {} (withoutInspections (inspectedBurst 1)) =
        [.ok ⟨40, .flaggedForReview, ["VELOCITY_BURST_EXCEEDED"]⟩] := by
  decide +kernel

end CleanArch
