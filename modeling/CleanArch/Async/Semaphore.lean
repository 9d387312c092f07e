import CleanArch.Async.Prog
import Mathlib.Data.List.Basic

/-!
# `asyncio.Semaphore`

A counting semaphore whose waiters are served in the order of their arrival. A release hands the
slot to the first pending waiter, which has it before it runs. `slots s` are the value and the slots
that have been handed over.
-/

namespace CleanArch
namespace Async

open List

inductive Fut where
  | pending
  | granted
  | cancelled
  deriving DecidableEq

structure Waiter (β : Type) where
  task : Tid
  tag : β
  fut : Fut := .pending
  mustCancel : Bool := false
  deriving DecidableEq

structure Semaphore (β : Type) where
  value : Nat
  waiters : List (Waiter β) := []
  deriving DecidableEq

namespace Semaphore

variable {β : Type} (s : Semaphore β) (t : Tid)

def locked : Bool := s.value == 0 || s.waiters.any fun w => w.fut != .cancelled

def grantFirst : List (Waiter β) → List (Waiter β)
  | [] => []
  | w :: ws => if w.fut = .pending then { w with fut := .granted } :: ws else w :: grantFirst ws

/-- `_wake_up_next`: whether there was a pending waiter. -/
def wakeUpNext : Bool × Semaphore β :=
  if s.waiters.any fun w => w.fut == .pending then
    (true, { value := s.value - 1, waiters := grantFirst s.waiters })
  else (false, s)

/-- The loop at the end of `acquire`, as long as there are free slots (`n` of them). -/
def wakeUpAll : Nat → Semaphore β → Semaphore β
  | 0, s => s
  | n + 1, s => if s.wakeUpNext.1 then wakeUpAll n s.wakeUpNext.2 else s

def suspend (tag : β) : Semaphore β := { s with waiters := s.waiters ++ [{ task := t, tag }] }

/-- `acquire` up to its `await`: whether the task has a slot, or is suspended. -/
def acquire (tag : β) : Bool × Semaphore β :=
  if s.locked then (false, s.suspend t tag) else (true, { s with value := s.value - 1 })

def cancel : Semaphore β :=
  { s with waiters := s.waiters.map fun w =>
      if w.task = t then
        match w.fut with
        | .pending => { w with fut := .cancelled }
        | .granted => { w with mustCancel := true }
        | .cancelled => w
      else w }

/-- The event loop runs a suspended task whose future is done: the tag, and whether the task has
a slot or raises `CancelledError`. -/
def resume : Option (β × Bool × Semaphore β) :=
  match s.waiters.find? fun w => w.task = t with
  | none => none
  | some w =>
    let rest := s.waiters.eraseP fun w => w.task = t
    match w.fut with
    | .pending => none
    | .granted =>
      if w.mustCancel then
        some (w.tag, false, wakeUpAll (s.value + 1) { value := s.value + 1, waiters := rest })
      else
        some (w.tag, true, wakeUpAll s.value { value := s.value, waiters := rest })
    | .cancelled => some (w.tag, false, wakeUpAll s.value { value := s.value, waiters := rest })

def release : Semaphore β := ({ s with value := s.value + 1 } : Semaphore β).wakeUpNext.2

def NonePending (ws : List (Waiter β)) : Prop := ∀ w ∈ ws, w.fut ≠ .pending

def tags : List β := s.waiters.map Waiter.tag

def granted : Nat := s.waiters.countP fun w => w.fut == .granted

def slots : Nat := s.value + s.granted

def Fair : Prop := s.granted = 0 → s.value = 0 ∨ NonePending s.waiters

variable {s t}

variable {ws : List (Waiter β)}

lemma nonePending_iff : NonePending ws ↔ (ws.any fun w => w.fut == .pending) = false := by
  simp [NonePending]

/-! ## Waking up -/

lemma countP_grantFirst (h : (ws.any fun w => w.fut == .pending) = true) :
    (grantFirst ws).countP (fun w => w.fut == .granted) =
      ws.countP (fun w => w.fut == .granted) + 1 := by
  induction ws with
  | nil => cases h
  | cons w ws ih =>
    unfold grantFirst
    by_cases hw : w.fut = .pending
    · simp [hw]
    · have hrest : (ws.any fun w => w.fut == .pending) = true := by simpa [hw] using h
      simp only [hw, if_false, countP_cons, ih hrest]
      omega

lemma map_tag_grantFirst (ws : List (Waiter β)) :
    (grantFirst ws).map Waiter.tag = ws.map Waiter.tag := by
  induction ws with
  | nil => rfl
  | cons w ws ih =>
    unfold grantFirst
    split
    · rfl
    · simp [ih]

lemma wakeUpNext_cases (s : Semaphore β) :
    (s.wakeUpNext.1 = true ∧ s.wakeUpNext.2.value = s.value - 1 ∧
      s.wakeUpNext.2.granted = s.granted + 1 ∧ s.wakeUpNext.2.tags = s.tags) ∨
    (s.wakeUpNext = (false, s) ∧ NonePending s.waiters) := by
  unfold wakeUpNext
  split
  · next hany => exact Or.inl ⟨rfl, rfl, countP_grantFirst hany, map_tag_grantFirst _⟩
  · next hany => exact Or.inr ⟨rfl, nonePending_iff.mpr (Bool.eq_false_iff.mpr hany)⟩

lemma wakeUpAll_spec (h : s.value = n) :
    (wakeUpAll n s).slots = s.slots ∧ (wakeUpAll n s).tags = s.tags ∧
      ((wakeUpAll n s).value = 0 ∨ NonePending (wakeUpAll n s).waiters) := by
  induction n generalizing s with
  | zero => exact ⟨rfl, rfl, Or.inl h⟩
  | succ n ih =>
    rw [wakeUpAll]
    rcases s.wakeUpNext_cases with ⟨hwake, hvalue, hgranted, htags⟩ | ⟨hnone, hpending⟩
    · obtain ⟨hslots, htags', hfree⟩ := ih (s := s.wakeUpNext.2) (by omega)
      rw [if_pos hwake, hslots, htags', htags]
      refine ⟨?_, rfl, hfree⟩
      simp only [slots]
      omega
    · rw [if_neg (by simp [hnone])]
      exact ⟨rfl, rfl, Or.inr hpending⟩

/-! ## The operations -/

lemma acquire_locked (h : s.locked = true) (tag : β) : s.acquire t tag = (false, s.suspend t tag) :=
  if_pos h

lemma acquire_unlocked (h : s.locked = false) (tag : β) :
    s.acquire t tag = (true, { s with value := s.value - 1 }) := by
  rw [acquire, h]
  rfl

lemma value_pos_of_unlocked (h : s.locked = false) : 0 < s.value := by
  simp [locked] at h
  omega

lemma granted_suspend (tag : β) : (s.suspend t tag).granted = s.granted := by
  simp [granted, suspend]

lemma tags_suspend (tag : β) : (s.suspend t tag).tags = s.tags ++ [tag] := by
  simp [tags, suspend]

lemma unlocked_of_fair (hf : s.Fair) (hg : s.granted = 0) (hv : 0 < s.value) :
    s.locked = false := by
  have hpending : NonePending s.waiters := (hf hg).resolve_left (by omega)
  have hgranted : ∀ w ∈ s.waiters, w.fut ≠ .granted := by
    simpa [granted] using hg
  simp only [locked, Bool.or_eq_false_iff, beq_eq_false_iff_ne, any_eq_false, bne_iff_ne, not_not]
  refine ⟨by omega, fun w hw => ?_⟩
  cases hfut : w.fut with
  | pending => exact absurd hfut (hpending w hw)
  | granted => exact absurd hfut (hgranted w hw)
  | cancelled => rfl

lemma fair_acquire (hf : s.Fair) (tag : β) : (s.acquire t tag).2.Fair := by
  cases hl : s.locked with
  | false =>
    rw [acquire_unlocked hl]
    intro hg
    rcases hf hg with hv | hp
    · exact Or.inl (by simp [hv])
    · exact Or.inr hp
  | true =>
    rw [acquire_locked hl]
    intro hg
    rw [granted_suspend] at hg
    refine Or.inl (Nat.eq_zero_of_not_pos fun hv => ?_)
    rw [unlocked_of_fair hf hg hv] at hl
    cases hl

lemma tags_cancel : (s.cancel t).tags = s.tags := by
  simp only [tags, cancel, map_map]
  refine map_congr_left fun w _ => ?_
  simp only [Function.comp]
  split
  · split <;> rfl
  · rfl

lemma granted_cancel : (s.cancel t).granted = s.granted := by
  simp only [granted, cancel, countP_map]
  refine countP_congr fun w _ => ?_
  simp only [Function.comp]
  split
  · split <;> simp_all
  · rfl

lemma fair_cancel (hf : s.Fair) : (s.cancel t).Fair := by
  intro hg
  rw [granted_cancel] at hg
  refine (hf hg).imp id fun hp w hw => ?_
  obtain ⟨w', hw', rfl⟩ := mem_map.mp hw
  have hne := hp w' hw'
  split
  · split <;> simp_all
  · exact hne

lemma perm_of_find {w : Waiter β} {p : Waiter β → Bool} (h : ws.find? p = some w) :
    (w :: ws.eraseP p).Perm ws := by
  obtain ⟨hw, as, bs, rfl, has⟩ := List.find?_eq_some_iff_append.mp h
  have herase : (as ++ w :: bs).eraseP p = as ++ bs := by
    rw [eraseP_append_right _ fun a ha => by simpa using has a ha, eraseP_cons_of_pos hw]
  rw [herase]
  exact perm_middle.symm

lemma resume_end {w : Waiter β} {p : Waiter β → Bool} (hw : s.waiters.find? p = some w)
    (value : Nat) :
    let s' := wakeUpAll value { value, waiters := s.waiters.eraseP p }
    s'.slots + (if w.fut == .granted then 1 else 0) = value + s.granted ∧
      (w.tag :: s'.tags).Perm s.tags ∧ s'.Fair := by
  have hperm := perm_of_find hw
  obtain ⟨hslots, htags, hfree⟩ :=
    wakeUpAll_spec (s := { value, waiters := s.waiters.eraseP p }) (n := value) rfl
  refine ⟨?_, ?_, fun _ => hfree⟩
  · rw [hslots, granted, ← hperm.countP_eq, countP_cons, slots, granted]
    simp only
    omega
  · rw [htags]
    exact hperm.map Waiter.tag

lemma resume_spec {tag : β} {s' : Semaphore β} (h : s.resume t = some (tag, entered, s')) :
    s'.slots + (if entered then 1 else 0) = s.slots ∧ (tag :: s'.tags).Perm s.tags ∧ s'.Fair := by
  unfold resume at h
  cases hw : s.waiters.find? fun w => w.task = t with
  | none =>
    rw [hw] at h
    cases h
  | some w =>
    rw [hw] at h
    simp only at h
    cases hfut : w.fut with
    | pending =>
      rw [hfut] at h
      cases h
    | granted =>
      rw [hfut] at h
      by_cases hmust : w.mustCancel = true
      · rw [if_pos hmust] at h
        obtain ⟨hslots, htags, hfair⟩ := resume_end hw (s.value + 1)
        cases h
        refine ⟨?_, htags, hfair⟩
        simp [hfut, slots] at hslots ⊢
        omega
      · rw [if_neg hmust] at h
        obtain ⟨hslots, htags, hfair⟩ := resume_end hw s.value
        cases h
        refine ⟨?_, htags, hfair⟩
        simpa [hfut, slots] using hslots
    | cancelled =>
      rw [hfut] at h
      obtain ⟨hslots, htags, hfair⟩ := resume_end hw s.value
      cases h
      refine ⟨?_, htags, hfair⟩
      simpa [hfut, slots] using hslots

lemma slots_release : s.release.slots = s.slots + 1 := by
  unfold release
  rcases wakeUpNext_cases ({ s with value := s.value + 1 } : Semaphore β) with
    ⟨-, hvalue, hgranted, -⟩ | ⟨hnone, -⟩
  · simp only [slots, hvalue, hgranted]
    simp only [granted]
    omega
  · rw [hnone]
    simp only [slots, granted]
    omega

lemma tags_release : s.release.tags = s.tags := by
  unfold release
  rcases wakeUpNext_cases ({ s with value := s.value + 1 } : Semaphore β) with
    ⟨-, -, -, htags⟩ | ⟨hnone, -⟩
  · exact htags
  · rw [hnone]
    rfl

lemma fair_release : s.release.Fair := by
  unfold release
  rcases wakeUpNext_cases ({ s with value := s.value + 1 } : Semaphore β) with
    ⟨-, -, hgranted, -⟩ | ⟨hnone, hpending⟩
  · intro hg
    omega
  · rw [hnone]
    exact fun _ => Or.inr hpending

end Semaphore

end Async
end CleanArch
