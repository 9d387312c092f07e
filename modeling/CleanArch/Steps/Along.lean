import Mathlib.Data.List.Infix

/-!
# Histories of operations

A state and a list of operations on it, one after another: `ops.foldl step s`. `Along step ok s
ops`: each operation is `ok` in the state before it. `Always step P s ops`: every state of the
history is in `P`, the first and the last included.
-/

namespace CleanArch
namespace Steps

open List

variable {S Op : Type} (step : S → Op → S)

/-- Each operation is `ok` in the state before it. -/
def Along (ok : S → Op → Prop) : S → List Op → Prop
  | _, [] => True
  | s, op :: ops => ok s op ∧ Along ok (step s op) ops

/-- `Along` can be evaluated on a history. -/
def Along.dec {ok : S → Op → Prop} [∀ s op, Decidable (ok s op)] :
    (s : S) → (ops : List Op) → Decidable (Along step ok s ops)
  | _, [] => .isTrue trivial
  | s, op :: ops =>
    have : Decidable (Along step ok (step s op) ops) := Along.dec (step s op) ops
    inferInstanceAs (Decidable (_ ∧ _))

instance {ok : S → Op → Prop} [∀ s op, Decidable (ok s op)] (s : S) (ops : List Op) :
    Decidable (Along step ok s ops) := Along.dec step s ops

/-- Every state of the history is in `P`. -/
def Always (P : S → Prop) (s : S) (ops : List Op) : Prop :=
  ∀ before, before <+: ops → P (before.foldl step s)

variable {step} {s : S} {op : Op}

lemma Always.last (h : Always step P s ops) : P (ops.foldl step s) := h ops prefix_rfl

lemma always_nil : Always step P s [] ↔ P s := by
  simp [Always]

lemma always_cons : Always step P s (op :: ops) ↔ P s ∧ Always step P (step s op) ops := by
  constructor
  · intro h
    refine ⟨h [] nil_prefix, fun before hb => ?_⟩
    exact h (op :: before) (cons_prefix_cons.mpr ⟨rfl, hb⟩)
  · rintro ⟨hs, h⟩ before hb
    cases before with
    | nil => exact hs
    | cons op' before =>
      obtain ⟨rfl, hb'⟩ := cons_prefix_cons.mp hb
      exact h before hb'

lemma Along.append (h : Along step ok s (ops ++ ops')) :
    Along step ok s ops ∧ Along step ok (ops.foldl step s) ops' := by
  induction ops generalizing s with
  | nil => exact ⟨trivial, h⟩
  | cons op ops ih =>
    obtain ⟨hop, hops⟩ := h
    exact ⟨⟨hop, (ih hops).1⟩, (ih hops).2⟩

lemma Along.of_forall (h : ∀ s op, ok s op) (s : S) (ops : List Op) : Along step ok s ops := by
  induction ops generalizing s with
  | nil => trivial
  | cons op ops ih => exact ⟨h s op, ih _⟩

lemma Along.invariant (hstep : ∀ s op, P s → ok s op → P (step s op)) (hs : P s)
    (h : Along step ok s ops) : Always step P s ops := by
  induction ops generalizing s with
  | nil => exact always_nil.mpr hs
  | cons op ops ih => exact always_cons.mpr ⟨hs, ih (hstep s op hs h.1) h.2⟩

lemma always_of_step (hstep : ∀ s op, P s → P (step s op)) (hs : P s) (ops : List Op) :
    Always step P s ops := by
  induction ops generalizing s with
  | nil => exact always_nil.mpr hs
  | cons op ops ih => exact always_cons.mpr ⟨hs, ih (hstep s op hs)⟩

lemma Always.along (hstep : ∀ s op, P s → P (step s op) → ok s op)
    (h : Always step P s ops) : Along step ok s ops := by
  induction ops generalizing s with
  | nil => trivial
  | cons op ops ih =>
    obtain ⟨hs, hrest⟩ := always_cons.mp h
    exact ⟨hstep s op hs (hrest [] nil_prefix), ih hrest⟩

lemma always_iff_along_cons (hs : P s) (hstep : P (step s op) ↔ ok s op)
    (hrest : P (step s op) → (Always step P (step s op) ops ↔ Along step ok (step s op) ops)) :
    Always step P s (op :: ops) ↔ Along step ok s (op :: ops) := by
  rw [always_cons]
  constructor
  · rintro ⟨-, h⟩
    have hP := h [] nil_prefix
    exact ⟨hstep.mp hP, (hrest hP).mp h⟩
  · rintro ⟨hok, h⟩
    exact ⟨hs, (hrest (hstep.mpr hok)).mpr h⟩

lemma always_iff_along {I : S → Prop} (hI : ∀ s op, I s → P s → I (step s op))
    (hstep : ∀ s op, I s → P s → (P (step s op) ↔ ok s op)) (hs : I s) (hP : P s) :
    Always step P s ops ↔ Along step ok s ops := by
  induction ops generalizing s with
  | nil => exact ⟨fun _ => trivial, fun _ => always_nil.mpr hP⟩
  | cons op ops ih =>
    exact always_iff_along_cons hP (hstep s op hs hP) fun hP' => ih (hI s op hs hP) hP'

/-! ## Records with a version -/

section Version

variable {E : Type} (get : S → Option E) (version : E → Nat)

variable (step) in
def Moves (s : S) (e : E) (op : Op) : Prop :=
  ∃ e', get (step s op) = some e' ∧ (e' = e ∨ version e < version e')

variable {get version}

lemma Along.version_le
    (h : Along step (fun s op => ∀ e, get s = some e → Moves step get version s e op) s ops)
    (hs : get s = some e) (hend : get (ops.foldl step s) = some e') :
    version e ≤ version e' := by
  induction ops generalizing s e with
  | nil =>
    have : e = e' := Option.some.inj (hs.symm.trans hend)
    rw [this]
  | cons op ops ih =>
    obtain ⟨e1, he1, hor⟩ := h.1 e hs
    have hle := ih h.2 he1 hend
    rcases hor with rfl | hlt
    · exact hle
    · omega

lemma Along.unchanged
    (h : Along step (fun s op => ∀ e, get s = some e → Moves step get version s e op) s ops)
    (hs : get s = some e) (hend : get (ops.foldl step s) = some e')
    (hv : version e' = version e) : Always step (fun s => get s = some e) s ops := by
  induction ops generalizing s with
  | nil => exact always_nil.mpr hs
  | cons op ops ih =>
    obtain ⟨e1, he1, rfl | hlt⟩ := h.1 e hs
    · exact always_cons.mpr ⟨hs, ih h.2 he1 hend⟩
    · have := h.2.version_le he1 hend
      omega

/-- The version of the end is that of the start: the record is as it was all along exactly if every
operation is one after which an unchanged version means an unchanged record (`ok`). -/
lemma unchanged_iff {I : S → Prop} (hI : ∀ s op, I s → I (step s op))
    (hmoves : ∀ s op e, I s → get s = some e → ok s op → Moves step get version s e op)
    (hok : ∀ s op e, I s → get s = some e → get (step s op) = some e → ok s op)
    (hs : I s) (he : get s = some e) (hend : get (ops.foldl step s) = some e')
    (hv : version e' = version e) :
    Always step (fun s => get s = some e) s ops ↔ Along step ok s ops := by
  constructor
  · intro h
    have hboth : Always step (fun s => I s ∧ get s = some e) s ops := fun before hb =>
      ⟨always_of_step hI hs ops before hb, h before hb⟩
    exact hboth.along fun s op hs hs' => hok s op e hs.1 hs.2 hs'.2
  · intro h
    refine Along.unchanged ?_ he hend hv
    clear he hend
    induction ops generalizing s with
    | nil => trivial
    | cons op ops ih =>
      exact ⟨fun e he => hmoves s op e hs he h.1, ih (hI s op hs) h.2⟩

end Version

/-! ## One operation more -/

lemma each_snoc {R : List Op → Op → Prop}
    (h : ∀ before op after, ops = before ++ op :: after → R before op) (hop : R ops op) :
    ∀ before op' after, ops ++ [op] = before ++ op' :: after → R before op' := by
  intro before op' after heq
  -- `op'` is the new one, or the new one is the last of `after`
  rcases eq_nil_or_concat after with rfl | ⟨after, last, rfl⟩
  · obtain ⟨rfl, hlast⟩ := append_inj' heq rfl
    cases hlast
    exact hop
  · rw [concat_eq_append, ← cons_append, ← append_assoc] at heq
    obtain ⟨hops, -⟩ := append_inj' heq rfl
    exact h before op' after hops

end Steps
end CleanArch
