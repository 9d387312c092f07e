import Mathlib.Algebra.BigOperators.Group.List.Basic
import Mathlib.Algebra.Order.Ring.Rat
import Mathlib.Tactic.Abel
import Mathlib.Tactic.Linarith
import Mathlib.Tactic.Ring

/-!
# Double-entry books

Over any type `ι` of accounts and any commutative group `K` of amounts. A posting is an account and
a signed amount: a debit is positive, a credit is negative.
-/

namespace CleanArch
namespace Books

variable {ι K β : Type} [AddCommGroup K]

/-- The signed sum of the postings on the accounts in `on`. -/
def net (on : ι → Prop) [DecidablePred on] (ps : List (ι × K)) : K :=
  (ps.map fun p => if on p.1 then p.2 else 0).sum

section Net

variable (on : ι → Prop) [DecidablePred on]

@[simp] lemma net_nil : net on ([] : List (ι × K)) = 0 := rfl

@[simp] lemma net_cons (p : ι × K) (ps : List (ι × K)) :
    net on (p :: ps) = (if on p.1 then p.2 else 0) + net on ps := by
  simp [net]

@[simp] lemma net_append (ps : List (ι × K)) : net on (ps ++ qs) = net on ps + net on qs := by
  simp [net]

lemma net_eq_zero {ps : List (ι × K)} (h : ∀ p ∈ ps, ¬ on p.1) : net on ps = 0 := by
  induction ps with
  | nil => rfl
  | cons p ps ih =>
    rw [net_cons, if_neg (h p List.mem_cons_self), ih fun q hq => h q (List.mem_cons_of_mem _ hq),
      zero_add]

lemma net_flatMap_eq_zero {f : β → List (ι × K)} {es : List β} (h : ∀ e ∈ es, net on (f e) = 0) :
    net on (es.flatMap f) = 0 := by
  induction es with
  | nil => rfl
  | cons e es ih =>
    rw [List.flatMap_cons, net_append, h e List.mem_cons_self,
      ih fun x hx => h x (List.mem_cons_of_mem _ hx), zero_add]

end Net

abbrev total (ps : List (ι × K)) : K := net (fun _ => True) ps

variable [DecidableEq ι]

abbrev balance (x : ι) (ps : List (ι × K)) : K := net (· = x) ps

lemma sum_single {as : List β} (hn : (as.map key).Nodup) {x : ι} (hx : x ∈ as.map key) (v : K) :
    (as.map fun a => if x = key a then v else 0).sum = v := by
  induction as with
  | nil => simp at hx
  | cons a as ih =>
    rw [List.map_cons, List.nodup_cons] at hn
    rw [List.map_cons, List.sum_cons]
    by_cases h : x = key a
    · -- the key is nowhere else, so the rest of the sum is zero
      have hz : (as.map fun b => if x = key b then v else 0).sum = 0 := by
        refine List.sum_eq_zero fun y hy => ?_
        obtain ⟨b, hb, rfl⟩ := List.mem_map.mp hy
        exact if_neg fun hxb => hn.1 (by rw [← h, hxb]; exact List.mem_map_of_mem hb)
      rw [if_pos h, hz, add_zero]
    · have hx' : x ∈ as.map key := by simpa [h] using hx
      rw [if_neg h, zero_add, ih hn.2 hx']

lemma sum_balance {as : List β} (hn : (as.map key).Nodup) {ps : List (ι × K)}
    (h : ∀ p ∈ ps, p.1 ∈ as.map key) : (as.map fun a => balance (key a) ps).sum = total ps := by
  induction ps with
  | nil => simp
  | cons p ps ih =>
    simp only [net_cons, if_true]
    rw [List.sum_map_add, sum_single hn (h p List.mem_cons_self),
      ih fun q hq => h q (List.mem_cons_of_mem _ hq)]

lemma sum_filter_add (side : β → Bool) (f : β → K) (as : List β) :
    ((as.filter side).map f).sum + ((as.filter (! side ·)).map f).sum = (as.map f).sum := by
  induction as with
  | nil => simp
  | cons a as ih =>
    by_cases h : side a = true
    · simp [h, ← ih, add_assoc]
    · simp [h, ← ih]; abel

lemma equation {as : List β} (hn : (as.map key).Nodup) {ps : List (ι × K)}
    (h : ∀ p ∈ ps, p.1 ∈ as.map key) (h0 : total ps = 0) (side : β → Bool) :
    ((as.filter side).map fun a => balance (key a) ps).sum =
      ((as.filter (! side ·)).map fun a => - balance (key a) ps).sum := by
  have hs := sum_filter_add side (fun a => balance (key a) ps) as
  rw [sum_balance hn h, h0] at hs
  have hneg : ((as.filter (! side ·)).map fun a => - balance (key a) ps).sum =
      - ((as.filter (! side ·)).map fun a => balance (key a) ps).sum := by
    rw [List.sum_neg, List.map_map]
    rfl
  rw [hneg]
  exact eq_neg_of_add_eq_zero_left hs

/-!
## Flows between currencies

A transfer takes `a + f` from a source in the currency `s`. A clearing account (`f1`) takes `a` and
a fee account (`fe`, if there is one) takes `f`. On the other side a clearing account (`f2`) gives
`D` to a destination in the currency `d`. When do these flows add up to zero in each currency?
-/

variable {κ : Type} [DecidableEq κ]

/-- `v` in the currency `x`, if there is one. -/
def amountIn (x : Option κ) (v : ℚ) (c : κ) : ℚ := if x = some c then v else 0

section Amount

variable {c d : κ}

@[simp] lemma amountIn_self (c : κ) : amountIn (some c) v c = v := if_pos rfl

lemma amountIn_eq_zero (h : ∀ e, x = some e → e ≠ c) : amountIn x v c = 0 :=
  if_neg fun hx => h c hx rfl

lemma amountIn_of_ne (h : s ≠ c) : amountIn (some s) v c = 0 := by
  refine amountIn_eq_zero fun e he => ?_
  cases he
  exact h

lemma amountIn_nonneg (hv : 0 ≤ v) : 0 ≤ amountIn x v c := by
  unfold amountIn
  split
  · exact hv
  · exact le_refl 0

lemma amountIn_le (hv : 0 ≤ v) : amountIn x v c ≤ v := by
  unfold amountIn
  split
  · exact le_refl v
  · exact hv

lemma amountIn_eq_self_iff (hn : x = none → v = 0) (hp : ∀ e, x = some e → 0 < v) :
    amountIn x v c = v ↔ ∀ e, x = some e → e = c := by
  cases x with
  | none =>
    rw [hn rfl]
    simp [amountIn]
  | some e =>
    have hv := hp e rfl
    by_cases h : e = c
    · simp [h]
    · rw [amountIn_of_ne h]
      constructor
      · intro h0
        linarith
      · intro hall
        exact absurd (hall e rfl) h

lemma amountIn_some_eq_self_iff (hv : 0 < v) : amountIn (some s) v c = v ↔ s = c := by
  have hsome : some s = none → v = 0 := nofun
  rw [amountIn_eq_self_iff hsome fun _ _ => hv]
  simp

lemma amountIn_third (h : ∀ e, x = some e → e = s ∨ e = d) (hs : s ≠ c) (hd : d ≠ c) :
    amountIn x v c = 0 := by
  refine amountIn_eq_zero fun e he => ?_
  rcases h e he with rfl | rfl
  · exact hs
  · exact hd

lemma amountIn_add (hsd : s ≠ d) (hn : x = none → v = 0)
    (h : ∀ e, x = some e → e = s ∨ e = d) : amountIn x v s + amountIn x v d = v := by
  cases x with
  | none =>
    rw [hn rfl]
    simp [amountIn]
  | some e =>
    rcases h e rfl with rfl | rfl
    · rw [amountIn_self, amountIn_of_ne hsd, add_zero]
    · rw [amountIn_self, amountIn_of_ne hsd.symm, zero_add]

end Amount

variable {fe : Option κ} {f : ℚ}

omit [DecidableEq κ] in
lemma fee_nonneg (hn : fe = none → f = 0) (hp : ∀ e, fe = some e → 0 < f) : 0 ≤ f := by
  cases fe with
  | none => rw [hn rfl]
  | some e => exact (hp e rfl).le

lemma flow_single_iff (hn : fe = none → f = 0) (hp : ∀ e, fe = some e → 0 < f) :
    (∀ c, -amountIn (some s) (a + f) c + amountIn (some s) a c + amountIn fe f c = 0) ↔
      ∀ e, fe = some e → e = s := by
  constructor
  · intro h
    have hs := h s
    rw [amountIn_self, amountIn_self] at hs
    rw [← amountIn_eq_self_iff hn hp]
    linarith
  · intro h c
    by_cases hc : s = c
    · subst hc
      rw [amountIn_self, amountIn_self, (amountIn_eq_self_iff hn hp).mpr h]
      ring
    · have hfee : amountIn fe f c = 0 := by
        refine amountIn_eq_zero fun e he hec => hc ?_
        rw [← h e he, hec]
      rw [amountIn_of_ne hc, amountIn_of_ne hc, hfee]
      ring

lemma flow_source (ha : 0 < a) (hn : fe = none → f = 0) (hp : ∀ e, fe = some e → 0 < f)
    (h : a + f ≤ amountIn (some f1) a s + amountIn fe f s) :
    f1 = s ∧ ∀ e, fe = some e → e = s := by
  have h1 : amountIn (some f1) a s ≤ a := amountIn_le ha.le
  have h2 : amountIn fe f s ≤ f := amountIn_le (fee_nonneg hn hp)
  rw [← amountIn_some_eq_self_iff ha, ← amountIn_eq_self_iff hn hp]
  constructor
  all_goals linarith

/-- Both sides run the same way: the clearing accounts and the fee have the currencies of the
legs that they stand against. -/
lemma flow_same_iff (hsd : s ≠ d) (ha : 0 < a) (hD : 0 < D) (hn : fe = none → f = 0)
    (hp : ∀ e, fe = some e → 0 < f) :
    (∀ c, (-amountIn (some s) (a + f) c + amountIn (some f1) a c + amountIn fe f c) +
      (-amountIn (some f2) D c + amountIn (some d) D c) = 0) ↔
      f1 = s ∧ f2 = d ∧ ∀ e, fe = some e → e = s := by
  constructor
  · intro h
    have hs := h s
    rw [amountIn_self, amountIn_of_ne hsd.symm] at hs
    have h2 : 0 ≤ amountIn (some f2) D s := amountIn_nonneg hD.le
    have hback : a + f ≤ amountIn (some f1) a s + amountIn fe f s := by linarith
    obtain ⟨hf1, hfe⟩ := flow_source ha hn hp hback
    -- then the destination's currency is balanced by its clearing account alone
    have hd := h d
    rw [amountIn_of_ne hsd, hf1, amountIn_of_ne hsd, amountIn_self] at hd
    have hfee : 0 ≤ amountIn fe f d := amountIn_nonneg (fee_nonneg hn hp)
    have hle : amountIn (some f2) D d ≤ D := amountIn_le hD.le
    refine ⟨hf1, (amountIn_some_eq_self_iff hD).mp ?_, hfe⟩
    linarith
  · rintro ⟨rfl, rfl, he⟩ c
    rw [(flow_single_iff hn hp).mpr he c]
    ring

lemma flow_crossed (hsd : s ≠ d) (hn : fe = none → f = 0) (h1 : f1 = s ∨ f1 = d)
    (he : ∀ e, fe = some e → e = s ∨ e = d) (hD : D = amountIn (some f1) a d + amountIn fe f d) :
    (-amountIn (some s) (a + f) c + amountIn (some f1) a c + amountIn fe f c) -
      (-amountIn (some s) D c + amountIn (some d) D c) = 0 := by
  have hsome : ∀ e, some f1 = some e → e = s ∨ e = d := by
    intro e hx
    cases hx
    exact h1
  have hsum1 : amountIn (some f1) a s + amountIn (some f1) a d = a :=
    amountIn_add hsd nofun hsome
  have hsumFee := amountIn_add (v := f) hsd hn he
  by_cases hcs : s = c
  · subst hcs
    rw [amountIn_self, amountIn_self, amountIn_of_ne hsd.symm]
    linarith
  · by_cases hcd : d = c
    · subst hcd
      rw [amountIn_of_ne hcs, amountIn_of_ne hcs, amountIn_self]
      linarith
    · rw [amountIn_of_ne hcs, amountIn_of_ne hcs, amountIn_of_ne hcd,
        amountIn_third hsome hcs hcd, amountIn_third he hcs hcd]
      ring

/-- The sides run opposite ways: the legs of the destination can also stand against those of the
source, if the amounts happen to be equal. -/
lemma flow_opposite_iff (hsd : s ≠ d) (ha : 0 < a) (hD : 0 < D) (hn : fe = none → f = 0)
    (hp : ∀ e, fe = some e → 0 < f) :
    (∀ c, (-amountIn (some s) (a + f) c + amountIn (some f1) a c + amountIn fe f c) -
      (-amountIn (some f2) D c + amountIn (some d) D c) = 0) ↔
      (f1 = s ∧ f2 = d ∧ ∀ e, fe = some e → e = s) ∨
      (f2 = s ∧ (f1 = s ∨ f1 = d) ∧ (∀ e, fe = some e → e = s ∨ e = d) ∧
        D = amountIn (some f1) a d + amountIn fe f d) := by
  have hf := fee_nonneg hn hp
  constructor
  · intro h
    have hs := h s
    have hd := h d
    rw [amountIn_self, amountIn_of_ne hsd.symm] at hs
    rw [amountIn_of_ne hsd, amountIn_self] at hd
    by_cases h₂d : f2 = d
    · rw [h₂d, amountIn_of_ne hsd.symm] at hs
      have hback : a + f ≤ amountIn (some f1) a s + amountIn fe f s := by linarith
      obtain ⟨hf1, hfe⟩ := flow_source ha hn hp hback
      exact .inl ⟨hf1, h₂d, hfe⟩
    · -- a third currency has nothing that could balance what an account brings into it
      have third : ∀ c, c ≠ s → c ≠ d →
          amountIn (some f1) a c + amountIn fe f c + amountIn (some f2) D c = 0 := by
        intro c hcs hcd
        have hc := h c
        rw [amountIn_of_ne hcs.symm, amountIn_of_ne hcd.symm] at hc
        linarith
      have nonneg1 : ∀ c, 0 ≤ amountIn (some f1) a c := fun c => amountIn_nonneg ha.le
      have nonneg2 : ∀ c, 0 ≤ amountIn (some f2) D c := fun c => amountIn_nonneg hD.le
      have nonnegFee : ∀ c, 0 ≤ amountIn fe f c := fun c => amountIn_nonneg hf
      have h2 : f2 = s := by
        by_contra hne
        have h0 := third f2 hne h₂d
        rw [amountIn_self] at h0
        linarith [nonneg1 f2, nonnegFee f2]
      have h1 : f1 = s ∨ f1 = d := by
        by_contra hne
        rw [not_or] at hne
        have h0 := third f1 hne.1 hne.2
        rw [amountIn_self] at h0
        linarith [nonneg2 f1, nonnegFee f1]
      have hfee : ∀ e, fe = some e → e = s ∨ e = d := by
        intro e he
        by_contra hne
        rw [not_or] at hne
        have h0 := third e hne.1 hne.2
        rw [he, amountIn_self] at h0
        linarith [nonneg1 e, nonneg2 e, hp e he]
      rw [amountIn_of_ne h₂d] at hd
      exact .inr ⟨h2, h1, hfee, by linarith⟩
  · rintro (⟨rfl, rfl, he⟩ | ⟨rfl, h1, he, hq⟩) c
    · rw [(flow_single_iff hn hp).mpr he c]
      ring
    · exact flow_crossed hsd hn h1 he hq

end Books
end CleanArch
