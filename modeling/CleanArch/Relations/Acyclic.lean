import Mathlib.Data.List.Pairwise
import Mathlib.Logic.Relation
import Mathlib.Order.Extension.Linear

/-!
# Relations without cycles

When a relation is part of a strict total order, and how a cycle of one relation is a cycle of
another.
-/

namespace CleanArch
namespace Relations

open Relation

variable {α β : Type}

def Acyclic (r : α → α → Prop) : Prop := ∀ a, ¬ TransGen r a a

variable {r : α → α → Prop}

lemma Acyclic.antisymm (h : Acyclic r) {a b : α} (hab : ReflTransGen r a b)
    (hba : ReflTransGen r b a) : a = b := by
  rcases reflTransGen_iff_eq_or_transGen.mp hab with heq | hab'
  · exact heq.symm
  · exact absurd (hab'.trans_left hba) (h a)

lemma Acyclic.of_imp (lt : α → α → Prop) (htrans : ∀ a b c, lt a b → lt b c → lt a c)
    (hirrefl : ∀ a, ¬ lt a a) (hr : ∀ a b, r a b → lt a b) : Acyclic r := by
  intro a hcycle
  have hmono : ∀ {b c}, TransGen r b c → lt b c := fun h => by
    induction h with
    | single hbc => exact hr _ _ hbc
    | tail _ hcd ih => exact htrans _ _ _ ih (hr _ _ hcd)
  exact hirrefl a (hmono hcycle)

lemma exists_strictTotalOrder_iff :
    (∃ lt : α → α → Prop, IsStrictTotalOrder α lt ∧ ∀ a b, r a b → lt a b) ↔ Acyclic r := by
  constructor
  · rintro ⟨lt, hlt, hr⟩
    exact .of_imp lt hlt.trans hlt.irrefl hr
  · intro h
    have hpartial : IsPartialOrder α (ReflTransGen r) :=
      { refl := fun _ => .refl
        trans := fun _ _ _ => .trans
        antisymm := fun _ _ => h.antisymm }
    obtain ⟨le, hle, hext⟩ := extend_partialOrder (ReflTransGen r)
    refine ⟨fun a b => le a b ∧ a ≠ b, ?_, fun a b hab => ⟨hext _ _ (.single hab), ?_⟩⟩
    · exact
        { trichotomous := fun a b hab hba => by
            by_contra hne
            rcases hle.total a b with hle' | hle'
            · exact hab ⟨hle', hne⟩
            · exact hba ⟨hle', Ne.symm hne⟩
          irrefl := fun a haa => haa.2 rfl
          trans := fun a b c hab hbc => by
            refine ⟨hle.trans _ _ _ hab.1 hbc.1, ?_⟩
            rintro rfl
            exact hab.2 (hle.antisymm _ _ hab.1 hbc.1) }
    · rintro rfl
      exact h a (.single hab)

lemma transGen_map {s : β → β → Prop} {f : α → β} (hstep : ∀ a b c, r a b → r b c → s (f a) (f b))
    {a b c : α} (h : TransGen r a b) (hbc : r b c) : TransGen s (f a) (f b) := by
  induction h generalizing c with
  | single hab => exact .single (hstep _ _ _ hab hbc)
  | tail hab hstep' ih => exact .tail (ih hstep') (hstep _ _ _ hstep' hbc)

lemma Acyclic.of_map {s : β → β → Prop} {f : α → β} (h : Acyclic s)
    (hstep : ∀ a b c, r a b → r b c → s (f a) (f b)) : Acyclic r := by
  intro a hcycle
  obtain ⟨b, hab, -⟩ := TransGen.head'_iff.mp hcycle
  exact h (f a) (transGen_map hstep hcycle hab)

lemma pairwise_iff_of_sorted {lt : α → α → Prop} (hasymm : ∀ a b, lt a b → ¬ lt b a)
    {R : α → α → Prop} {l : List α} (hl : l.Pairwise lt) :
    l.Pairwise R ↔ ∀ a ∈ l, ∀ b ∈ l, lt a b → R a b := by
  constructor
  · intro h
    induction l with
    | nil => simp
    | cons x xs ih =>
      obtain ⟨hx, hxs⟩ := List.pairwise_cons.mp hl
      obtain ⟨hRx, hRxs⟩ := List.pairwise_cons.mp h
      intro a ha b hb hab
      rcases List.mem_cons.mp ha with rfl | ha'
      · rcases List.mem_cons.mp hb with rfl | hb'
        · exact absurd hab (hasymm _ _ hab)
        · exact hRx b hb'
      · rcases List.mem_cons.mp hb with rfl | hb'
        · exact absurd hab (hasymm _ _ (hx a ha'))
        · exact ih hxs hRxs a ha' b hb' hab
  · exact fun h => hl.imp_of_mem fun ha hb hab => h _ ha _ hb hab

end Relations
end CleanArch
