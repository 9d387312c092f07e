import Mathlib.Data.Option.Basic
import Mathlib.Logic.Basic

/-!
# Inverse indexes

Records by id (`get`) and an index of one of their keys (`find`). `Inverse key get find`: the index
has the key of every record, and nothing else. For each write, when the index is the inverse again.
-/

namespace CleanArch
namespace Assoc

variable {I E K : Type} [DecidableEq I] [DecidableEq K]

def Inverse (key : E → K) (get : I → Option E) (find : K → Option I) : Prop :=
  ∀ k i, find k = some i ↔ ∃ e, get i = some e ∧ key e = k

namespace Inverse

variable {get : I → Option E} {find : K → Option I}

omit [DecidableEq I] [DecidableEq K] in
lemma find_key (h : Inverse key get find) (he : get i = some e) : find (key e) = some i :=
  (h _ _).mpr ⟨e, he, rfl⟩

omit [DecidableEq I] [DecidableEq K] in
lemma eq_of_key_eq (h : Inverse key get find) (he : get i = some e) (he' : get j = some e')
    (hk : key e = key e') : i = j := by
  have hi := h.find_key he
  rw [hk, h.find_key he'] at hi
  exact (Option.some.inj hi).symm

omit [DecidableEq I] [DecidableEq K] in
lemma congr (h : Inverse key get find) (hget : ∀ i, (get' i).map key = (get i).map key) :
    Inverse key get' find := by
  intro k i
  rw [h k i]
  have := hget i
  constructor
  · rintro ⟨e, he, rfl⟩
    simpa [he] using this
  · rintro ⟨e, he, rfl⟩
    simpa [he, eq_comm] using this

lemma insert_iff (h : Inverse key get find) (hi : get i = none)
    (hget : ∀ j, get' j = if j = i then some e else get j)
    (hfind : ∀ k, find' k = if key e = k then some i else find k) :
    Inverse key get' find' ↔ find (key e) = none := by
  constructor
  · intro h'
    cases hk : find (key e) with
    | none => rfl
    | some j =>
      obtain ⟨e', he', hkey⟩ := (h _ _).mp hk
      have hne : j ≠ i := by
        rintro rfl
        rw [hi] at he'
        cases he'
      have hj : get' j = some e' := by rw [hget, if_neg hne, he']
      exact absurd (h'.eq_of_key_eq hj (by rw [hget, if_pos rfl]) hkey) hne
  · intro hk k j
    rw [hfind, hget]
    by_cases hkk : key e = k
    · subst hkk
      by_cases hj : j = i
      · simp [hj]
      · have hnot : ¬ ∃ e', get j = some e' ∧ key e' = key e := by
          rw [← h, hk]
          intro hnone
          cases hnone
        simp [hj, hnot, Ne.symm hj]
    · by_cases hj : j = i
      · subst hj
        have hnot : find k ≠ some j := by
          rw [Ne, h, hi]
          rintro ⟨_, he', -⟩
          cases he'
        simp [hkk, hnot]
      · simp [hkk, hj, h k j]

lemma remove (h : Inverse key get find) (hi : get i = some e)
    (hget : ∀ j, get' j = if j = i then none else get j)
    (hfind : ∀ k, find' k = if key e = k then none else find k) : Inverse key get' find' := by
  intro k j
  rw [hfind, hget]
  by_cases hj : j = i
  · subst hj
    have hnot : find k = some j → key e = k := by
      intro hk
      obtain ⟨e', he', rfl⟩ := (h _ _).mp hk
      rw [Option.some.inj (hi.symm.trans he')]
    by_cases hk : key e = k <;> simp [hk]
    exact fun hf => hk (hnot hf)
  · rw [if_neg hj, ← h]
    by_cases hk : key e = k
    · rw [if_pos hk, ← hk, h.find_key hi]
      simp [Ne.symm hj]
    · rw [if_neg hk]

lemma move_iff (h : Inverse key get find) (hi : get i = some e)
    (hget : ∀ j, get' j = if j = i then some e' else get j)
    (hfind : ∀ k, find' k = if key e' = key e then find k
      else if key e' = k then some i else if key e = k then none else find k) :
    Inverse key get' find' ↔ key e' = key e ∨ find (key e') = none := by
  by_cases hkey : key e' = key e
  · refine iff_of_true ?_ (.inl hkey)
    have hsame : find' = find := funext fun k => by rw [hfind, if_pos hkey]
    rw [hsame]
    refine h.congr fun j => ?_
    by_cases hj : j = i <;> simp [hget, hj, hi, hkey]
  · -- the record leaves under its old key and comes back under the new one
    have hout : Inverse key (fun j => if j = i then none else get j)
        (fun k => if key e = k then none else find k) := h.remove hi (fun _ => rfl) fun _ => rfl
    have hback : Inverse key get' find' ↔
        (if key e = key e' then none else find (key e')) = none := by
      refine hout.insert_iff (if_pos rfl) (fun j => ?_) fun k => ?_
      · by_cases hj : j = i <;> simp [hget, hj]
      · simp [hfind, hkey]
    rw [hback, if_neg (Ne.symm hkey)]
    simp [hkey]

omit [DecidableEq I] [DecidableEq K] in
lemma reread_iff (h : Inverse key get find) (hdom : ∀ i, (get' i).isSome = (get i).isSome) :
    Inverse key get' find ↔ ∀ i e, get' i = some e → find (key e) = some i := by
  constructor
  · exact fun h' i e he => h'.find_key he
  · intro hkeys k i
    constructor
    · intro hk
      obtain ⟨e, he, rfl⟩ := (h _ _).mp hk
      have hsome : (get' i).isSome := by rw [hdom, he]; rfl
      obtain ⟨e', he'⟩ := Option.isSome_iff_exists.mp hsome
      -- the index knows the id under one key only
      obtain ⟨e0, he0, hkey⟩ := (h _ _).mp (hkeys i e' he')
      have : e0 = e := Option.some.inj (he0.symm.trans he)
      exact ⟨e', he', by rw [← hkey, this]⟩
    · rintro ⟨e, he, rfl⟩
      exact hkeys i e he

end Inverse

/-!
## Inverted indexes

Every record shows a payload (`get`), which knows the key of the record and has some terms. An index
holds payloads at words: `holds w p`. It is exact (`Inverted`) if it holds the payloads that are
shown, at their terms, and nothing else. `Inverted.change` is one step.
-/

variable {I W P : Type}

def Inverted (key : P → I) (term : P → W → Prop) (get : I → Option P) (holds : W → P → Prop) :
    Prop :=
  ∀ w p, holds w p ↔ get (key p) = some p ∧ term p w

lemma Inverted.change {key : P → I} {term : P → W → Prop} {get get' : I → Option P}
    {holds holds' : W → P → Prop} (i : I) (emptied : W → Prop) (h : Inverted key term get holds)
    (hget : ∀ j, j ≠ i → get' j = get j) (hkey : ∀ p, get' i = some p → key p = i)
    (hholds : ∀ w p, holds' w p ↔ (holds w p ∧ ¬ emptied w) ∨ (get' i = some p ∧ term p w))
    (hold : ∀ p w, get i = some p → term p w → emptied w ∨ get' i = some p)
    (hothers : ∀ j p w, j ≠ i → get j = some p → term p w → ¬ emptied w) :
    Inverted key term get' holds' := by
  intro w p
  rw [hholds, h w p]
  constructor
  · rintro (⟨⟨hp, hw⟩, hkept⟩ | ⟨hp, hw⟩)
    · by_cases hi : key p = i
      · rw [hi] at hp ⊢
        rcases hold p w hp hw with hgone | hstill
        · exact absurd hgone hkept
        · exact ⟨hstill, hw⟩
      · exact ⟨(hget _ hi).trans hp, hw⟩
    · rw [hkey p hp]
      exact ⟨hp, hw⟩
  · rintro ⟨hp, hw⟩
    by_cases hi : key p = i
    · rw [hi] at hp
      exact .inr ⟨hp, hw⟩
    · have hp' := (hget _ hi).symm.trans hp
      exact .inl ⟨⟨hp', hw⟩, hothers _ p w hi hp' hw⟩

end Assoc
end CleanArch
