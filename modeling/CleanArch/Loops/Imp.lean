import Mathlib.Logic.Function.Iterate

/-!
# Methods of a mutable object

`Imp ε σ α` is a method of an object with state `σ`: it may change the state, raise an `ε`, or not
return. What it changed before it raised stays changed. A method with a loop takes the bound on
its rounds as an argument; a larger bound does not change what it returns (`Mono`).
-/

namespace CleanArch
namespace Loops

/-!
## Loops that may not end

`loop body` is `while True: body`, over any type of states. A round of the body either goes on from
a new state or leaves the loop with a result. The loop is run for at most `fuel` rounds: `none` is a
loop that has not ended yet, and a loop that never ends is `none` for every fuel.

- `loop_of_measure`: a loop whose rounds make a number smaller ends.
- `ends_iff_exists_iterate`: a loop that stops by looking at one part of its state, which moves on
  its own.
-/

inductive Round (σ β : Type) where
  | again (s : σ)
  | done (b : β)

variable {σ τ β : Type} {body : σ → Round σ β}

def loop (body : σ → Round σ β) : Nat → σ → Option β
  | 0, _ => none
  | fuel + 1, s =>
    match body s with
    | .again s' => loop body fuel s'
    | .done b => some b

/-- The loop ends from `s`. -/
def Ends (body : σ → Round σ β) (s : σ) : Prop := ∃ fuel b, loop body fuel s = some b

lemma loop_again {s s' : σ} (h : body s = .again s') :
    loop body (fuel + 1) s = loop body fuel s' := by
  simp only [loop, h]

variable {s : σ}

lemma loop_done {b : β} (h : body s = .done b) : loop body (fuel + 1) s = some b := by
  simp only [loop, h]

variable {fuel fuel' : Nat}

lemma loop_mono (hle : fuel ≤ fuel') {b : β} (h : loop body fuel s = some b) :
    loop body fuel' s = some b := by
  induction fuel generalizing s fuel' with
  | zero => cases h
  | succ fuel ih =>
    obtain ⟨more, rfl⟩ := Nat.exists_eq_add_of_le hle
    rw [Nat.add_right_comm]
    cases hb : body s with
    | again =>
      rw [loop_again hb] at h ⊢
      exact ih (Nat.le_add_right _ _) h
    | done =>
      rw [loop_done hb] at h ⊢
      exact h

variable {I : σ → Prop}

lemma loop_induct {Q : β → Prop} (hagain : ∀ s s', I s → body s = .again s' → I s')
    (hdone : ∀ s b, I s → body s = .done b → Q b) {b : β} (hs : I s)
    (h : loop body fuel s = some b) : Q b := by
  induction fuel generalizing s with
  | zero => cases h
  | succ fuel ih =>
    cases hb : body s with
    | again s' =>
      rw [loop_again hb] at h
      exact ih (hagain s s' hs hb) h
    | done =>
      rw [loop_done hb] at h
      cases h
      exact hdone s b hs hb

lemma loop_of_measure (m : σ → Nat) (hagain : ∀ s s', I s → body s = .again s' → I s' ∧ m s' < m s)
    (hs : I s) (hfuel : m s < fuel) : ∃ b, loop body fuel s = some b := by
  induction fuel generalizing s with
  | zero => omega
  | succ fuel ih =>
    cases hb : body s with
    | done b => exact ⟨b, loop_done hb⟩
    | again s' =>
      obtain ⟨hs', hlt⟩ := hagain s s' hs hb
      obtain ⟨b, h⟩ := ih hs' (by omega)
      exact ⟨b, by rw [loop_again hb]; exact h⟩

/-- A loop that looks at one part of its state (`view`) to stop, where this part moves on its
own (`next`): it ends when some later part stops it. -/
lemma ends_iff_exists_iterate (view : σ → τ) (next : τ → τ) (stop : τ → Prop)
    (hstop : ∀ s, I s → (stop (view s) ↔ ∃ b, body s = .done b))
    (hnext : ∀ s s', I s → body s = .again s' → I s' ∧ view s' = next (view s)) (hs : I s) :
    Ends body s ↔ ∃ n, stop (next^[n] (view s)) := by
  constructor
  · rintro ⟨fuel, b, h⟩
    induction fuel generalizing s with
    | zero => cases h
    | succ fuel ih =>
      cases hb : body s with
      | done c => exact ⟨0, (hstop s hs).mpr ⟨c, hb⟩⟩
      | again s' =>
        obtain ⟨hs', hview⟩ := hnext s s' hs hb
        rw [loop_again hb] at h
        obtain ⟨n, hn⟩ := ih hs' h
        refine ⟨n + 1, ?_⟩
        rw [Function.iterate_succ_apply, ← hview]
        exact hn
  · rintro ⟨n, hn⟩
    induction n generalizing s with
    | zero =>
      obtain ⟨b, hb⟩ := (hstop s hs).mp hn
      exact ⟨1, b, loop_done hb⟩
    | succ n ih =>
      cases hb : body s with
      | done b => exact ⟨1, b, loop_done hb⟩
      | again s' =>
        obtain ⟨hs', hview⟩ := hnext s s' hs hb
        rw [Function.iterate_succ_apply, ← hview] at hn
        obtain ⟨fuel, b, h⟩ := ih hs' hn
        exact ⟨fuel + 1, b, by rw [loop_again hb]; exact h⟩

abbrev Imp (ε σ α : Type) := ExceptT ε (StateT σ Option) α

variable {ε σ α β : Type}

def exec (x : Imp ε σ α) (s : σ) : Option (Except ε α × σ) := x.run.run s

/-! ## The outcome of each construct -/

@[simp] lemma exec_pure (s : σ) : exec (pure a : Imp ε σ α) s = some (.ok a, s) := rfl

@[simp] lemma exec_getThe (s : σ) : exec (getThe σ : Imp ε σ σ) s = some (.ok s, s) := rfl

@[simp] lemma exec_modify (s : σ) : exec (modify f : Imp ε σ PUnit) s = some (.ok ⟨⟩, f s) := rfl

variable (x : Imp ε σ α)

lemma exec_bind (s : σ) : exec (x >>= f) s = (exec x s).bind fun
      | (.ok a, s') => exec (f a) s'
      | (.error e, s') => some (.error e, s') := by
  unfold exec
  simp only [ExceptT.run_bind, StateT.run_bind, Option.bind_eq_bind]
  refine congrArg _ (funext fun r => ?_)
  obtain ⟨r, s'⟩ := r
  cases r <;> rfl

lemma exec_tryCatch (s : σ) : exec (tryCatch x f) s = (exec x s).bind fun
      | (.ok a, s') => some (.ok a, s')
      | (.error e, s') => exec (f e) s' := by
  unfold exec
  simp only [tryCatch, tryCatchThe, MonadExceptOf.tryCatch, ExceptT.tryCatch, ExceptT.run,
    ExceptT.mk, StateT.run_bind, Option.bind_eq_bind]
  refine congrArg _ (funext fun r => ?_)
  obtain ⟨r, s'⟩ := r
  cases r <;> rfl

lemma exec_liftOption (x : Option α) (s : σ) :
    exec (liftM x : Imp ε σ α) s = x.map fun a => (.ok a, s) := by
  cases x <;> rfl

lemma exec_bind_ok {x : Imp ε σ α} {s s' : σ} {a : α} (h : exec x s = some (.ok a, s')) :
    exec (x >>= f) s = exec (f a) s' := by
  rw [exec_bind, h]
  rfl

lemma exec_bind_error {x : Imp ε σ α} {s s' : σ} {e : ε} (h : exec x s = some (.error e, s')) :
    exec (x >>= f) s = some (.error e, s') := by
  rw [exec_bind, h]
  rfl

variable {s : σ}

lemma exec_bind_some {x : Imp ε σ α} {r : Except ε β × σ} (h : exec (x >>= f) s = some r) :
    (∃ a s', exec x s = some (.ok a, s') ∧ exec (f a) s' = some r) ∨
      ∃ e s', exec x s = some (.error e, s') ∧ r = (.error e, s') := by
  obtain ⟨⟨a, s'⟩, hx, h⟩ := Option.bind_eq_some_iff.mp h
  cases a with
  | ok a => exact Or.inl ⟨a, s', hx, h⟩
  | error e => exact Or.inr ⟨e, s', hx, (Option.some.inj h).symm⟩

lemma exists_exec_bind_iff {x : Imp ε σ α} (hf : ∀ a s', ∃ r, exec (f a) s' = some r) :
    (∃ r, exec (x >>= f) s = some r) ↔ ∃ r, exec x s = some r := by
  constructor
  · rintro ⟨r, h⟩
    rcases exec_bind_some h with ⟨a, s', hx, -⟩ | ⟨e, s', hx, -⟩
    all_goals exact ⟨_, hx⟩
  · rintro ⟨⟨a, s'⟩, hx⟩
    cases a with
    | ok a =>
      rw [exec_bind_ok hx]
      exact hf a s'
    | error => exact ⟨_, exec_bind_error hx⟩

lemma exists_exec_tryCatch_iff {x : Imp ε σ α} {f : ε → Imp ε σ α}
    (hf : ∀ e s', ∃ r, exec (f e) s' = some r) :
    (∃ r, exec (tryCatch x f) s = some r) ↔ ∃ r, exec x s = some r := by
  rw [exec_tryCatch]
  cases hx : exec x s with
  | none => simp
  | some r =>
    obtain ⟨a, s'⟩ := r
    cases a with
    | ok => simp
    | error e => simpa using hf e s'

/-! ## More rounds -/

/-- More rounds do not change what `x` returns. -/
def Mono (x : Nat → Imp ε σ α) : Prop :=
  ∀ fuel fuel' s r, fuel ≤ fuel' → exec (x fuel) s = some r → exec (x fuel') s = some r

lemma Mono.exec_of_le {x : Nat → Imp ε σ α} (hx : Mono x) {r : Except ε α × σ}
    (hle : fuel ≤ fuel') (h : exec (x fuel) s = some r) : exec (x fuel') s = some r :=
  hx fuel fuel' s r hle h

lemma Mono.const : Mono fun _ => x := by
  intro fuel fuel' s r _ h
  exact h

lemma Mono.bind {x : Nat → Imp ε σ α} {f : Nat → α → Imp ε σ β} (hx : Mono x)
    (hf : ∀ a, Mono fun fuel => f fuel a) : Mono fun fuel => x fuel >>= f fuel := by
  intro fuel fuel' s r hle h
  rcases exec_bind_some h with ⟨a, s', hxa, hfa⟩ | ⟨e, s', hxe, rfl⟩
  · rw [exec_bind_ok (hx.exec_of_le hle hxa)]
    exact (hf a).exec_of_le hle hfa
  · exact exec_bind_error (hx.exec_of_le hle hxe)

lemma Mono.tryCatch {x : Nat → Imp ε σ α} (hx : Mono x) (f : ε → Imp ε σ α) :
    Mono fun fuel => tryCatch (x fuel) f := by
  intro fuel fuel' s r hle h
  rw [exec_tryCatch] at h ⊢
  obtain ⟨a, ha, h⟩ := Option.bind_eq_some_iff.mp h
  rw [hx.exec_of_le hle ha]
  exact h

lemma Mono.loop {τ : Type} (body : τ → Round τ α) (t : τ) :
    Mono fun fuel => (liftM (loop body fuel t) : Imp ε σ α) := by
  intro fuel fuel' s r hle h
  rw [exec_liftOption] at h ⊢
  obtain ⟨a, ha, rfl⟩ := Option.map_eq_some_iff.mp h
  rw [loop_mono hle ha]
  rfl

lemma Mono.forM {f : Nat → α → Imp ε σ PUnit} (hf : ∀ a, Mono fun fuel => f fuel a)
    (l : List α) : Mono fun fuel => l.forM (f fuel) := by
  induction l with
  | nil => exact Mono.const _
  | cons a l ih => exact Mono.bind (hf a) fun _ => ih

lemma Mono.agree {x : Nat → Imp ε σ α} (hx : Mono x) {r r' : Except ε α × σ}
    (h : exec (x fuel) s = some r) (h' : exec (x fuel') s = some r') : r = r' := by
  have h1 := hx.exec_of_le (Nat.le_max_left fuel fuel') h
  have h2 := hx.exec_of_le (Nat.le_max_right fuel fuel') h'
  rw [h1] at h2
  exact Option.some.inj h2

end Loops
end CleanArch
