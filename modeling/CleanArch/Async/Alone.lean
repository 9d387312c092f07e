import CleanArch.Async.Prog

/-!
# Symbolic runs of one program

What a program does when it runs alone, for every answer of the world in `ok` (`Machine.Ends`). The
rules are equivalences, so `simp` runs a program. For a run with given choices of the world, the
same rules hold of the machine that has them on a tape (`Machine.taped`).
-/

namespace CleanArch
namespace Async

namespace Machine

variable {M : Machine} {α β : Type}

/-- Every run of the program alone, with answers in `ok`, ends in `Q`. -/
def Ends (ok : M.Out → Prop) (t : Tid) :
    M.Prog α → (Except M.Err α → M.Loc → M.Sh → Prop) → M.Loc → M.Sh → Prop
  | .ret a, Q, l, s => Q (.ok a) l s
  | .raise e, Q, l, s => Q (.error e) l s
  | .await c k, Q, l, s => ∀ o, ok o → Ends ok t (k (M.exec t c o l s).1) Q
      (M.exec t c o l s).2.1 (M.exec t c o l s).2.2

section Rules

@[simp] lemma ends_ofExcept {x : Except M.Err α} :
    Ends ok t (Prog.ofExcept x : M.Prog α) Q l s ↔ Q x l s := by
  cases x <;> rfl

@[simp] lemma ends_call {Q : Except M.Err (M.Res c) → M.Loc → M.Sh → Prop} :
    Ends ok t (Prog.call c : M.Prog (M.Res c)) Q l s ↔
      ∀ o, ok o → Q (M.exec t c o l s).1 (M.exec t c o l s).2.1 (M.exec t c o l s).2.2 := by
  simp [Prog.call, Ends]

@[simp] lemma ends_bind {p : M.Prog β} {f : β → M.Prog α} :
    Ends ok t (p.bind f) Q l s ↔ Ends ok t p (fun r l s => match r with
      | .ok b => Ends ok t (f b) Q l s
      | .error e => Q (.error e) l s) l s := by
  induction p generalizing l s with
  | ret | raise => rfl
  | await c k ih => exact forall_congr' fun o => forall_congr' fun _ => ih _

variable {p : M.Prog α}

@[simp] lemma ends_handle {h : M.Err → M.Prog α} :
    Ends ok t (p.handle h) Q l s ↔ Ends ok t p (fun r l s => match r with
      | .ok a => Q (.ok a) l s
      | .error e => Ends ok t (h e) Q l s) l s := by
  induction p generalizing l s with
  | ret | raise => rfl
  | await c k ih => exact forall_congr' fun o => forall_congr' fun _ => ih _

@[simp] lemma ends_attempt {p : M.Prog β}
    {Q : Except M.Err (Except M.Err β) → M.Loc → M.Sh → Prop} :
    Ends ok t p.attempt Q l s ↔ Ends ok t p (fun r => Q (.ok r)) l s := by
  induction p generalizing l s with
  | ret | raise => rfl
  | await c k ih => exact forall_congr' fun o => forall_congr' fun _ => ih _

lemma Ends.mono {Q' : Except M.Err α → M.Loc → M.Sh → Prop} (h : Ends ok t p Q l s)
    (hQ : ∀ r l s, Q r l s → Q' r l s) : Ends ok t p Q' l s := by
  induction p generalizing l s with
  | ret | raise => exact hQ _ _ _ h
  | await c k ih => exact fun o ho => ih _ (h o ho)

lemma ends_within_ok {F : M.Loc → M.Sh → Prop} (hstep : ∀ c o l s, okC c → ok o → F l s →
      F (M.exec t c o l s).2.1 (M.exec t c o l s).2.2 ∧
        ∀ e, (M.exec t c o l s).1 = .error e → okE e) (hp : p.Within okC okE) (h : F l s) :
    Ends ok t p (fun r l s => F l s ∧ ∀ e, r = .error e → okE e) l s := by
  induction p generalizing l s with
  | ret => exact ⟨h, nofun⟩
  | raise => exact ⟨h, fun _ he => by cases he; exact hp⟩
  | await c k ih =>
    intro o ho
    obtain ⟨hF, he⟩ := hstep c o l s hp.1 ho h
    exact ih _ (hp.2 _ he) hF

lemma ends_within {F : M.Loc → M.Sh → Prop}
    (hstep : ∀ c o l s, okC c → F l s → F (M.exec t c o l s).2.1 (M.exec t c o l s).2.2 ∧
      ∀ e, (M.exec t c o l s).1 = .error e → okE e) (hp : p.Within okC okE) (h : F l s) :
    Ends ok t p (fun _ l s => F l s) l s :=
  (ends_within_ok (fun c o l s hc _ => hstep c o l s hc) hp h).mono fun _ _ _ hF => hF.1

lemma run_of_ends (h : Ends ok t p Q l s) (ho : ∀ n, ok (o n)) :
    Q (M.run t p o l s).1 (M.run t p o l s).2.1 (M.run t p o l s).2.2 := by
  induction p generalizing l s o with
  | ret | raise => exact h
  | await c k ih => exact ih _ (h (o 0) (ho 0)) fun n => ho (n + 1)

lemma ends_of_runs (hok : ∃ o, ok o) (h : ∀ o : Nat → M.Out, (∀ n, ok (o n)) →
      Q (M.run t p o l s).1 (M.run t p o l s).2.1 (M.run t p o l s).2.2) : Ends ok t p Q l s := by
  induction p generalizing l s with
  | ret | raise =>
    obtain ⟨o, ho⟩ := hok
    exact h (fun _ => o) fun _ => ho
  | await c k ih =>
    intro o ho
    refine ih _ fun o' ho' => h (fun n => n.casesOn (motive := fun _ => M.Out) o o') fun n => ?_
    cases n with
    | zero => exact ho
    | succ n => exact ho' n

end Rules

lemma run_map {p : M.Prog β} {f : β → α} : M.run t (p.bind fun b => .ret (f b)) o l s =
      ((M.run t p o l s).1.map f, (M.run t p o l s).2) := by
  induction p generalizing l s o with
  | ret | raise => rfl
  | await c k ih => exact ih _

/-! ## Tapes -/

@[reducible] def taped (M : Machine) : Machine where
  Cmd := M.Cmd
  Res := M.Res
  Err := M.Err
  Loc := M.Loc
  Sh := M.Sh × (Nat → M.Out)
  Out := Unit
  exec t c _ l s :=
    ((M.exec t c (s.2 0) l s.1).1, (M.exec t c (s.2 0) l s.1).2.1,
      (M.exec t c (s.2 0) l s.1).2.2, fun n => s.2 (n + 1))

lemma run_of_taped {p : M.Prog α} {Q : Except M.Err α → M.Loc → M.Sh × (Nat → M.Out) → Prop}
    (h : M.taped.Ends (fun _ => True) t p Q l (s, o)) :
    ∃ o', Q (M.run t p o l s).1 (M.run t p o l s).2.1 ((M.run t p o l s).2.2, o') := by
  induction p generalizing l s o with
  | ret | raise => exact ⟨o, h⟩
  | await c k ih => exact ih _ (h () trivial)

end Machine

end Async
end CleanArch
