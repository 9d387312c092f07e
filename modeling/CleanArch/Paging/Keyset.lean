import Mathlib.Data.List.Sort
import Mathlib.Data.Prod.Lex

/-!
# Keyset pagination

Rows with keys of a linear order are read page by page, the greatest key first. The reader keeps the
key of the last row it got (the cursor) and asks for the next rows with a smaller key. The rows may
change between two reads: `tables k` are the rows at the read `k`.
-/

namespace CleanArch
namespace Paging

open List

variable {α κ : Type} [LinearOrder κ] (key : α → κ)

def Desc (l : List α) : Prop := l.Pairwise fun a b => key b < key a

/-- `ORDER BY key DESC`. -/
def sortDesc (rows : List α) : List α := rows.insertionSort fun a b => key b ≤ key a

/-- `WHERE key < cursor`; without a cursor, all rows. -/
def seek : Option κ → List α → List α
  | none, rows => rows
  | some cursor, rows => rows.filter fun a => key a < cursor

/-- The pages of `limit` rows from the read `k` on, of at most `fuel` reads. -/
def traverse (limit : Nat) (tables : Nat → List α) : Nat → Nat → Option κ → Option (List (List α))
  | 0, _, _ => none
  | fuel + 1, k, cursor =>
    let rows := sortDesc key (seek key cursor (tables k))
    if limit < rows.length then
      (traverse limit tables fuel (k + 1) ((rows.take limit).getLast?.map key)).map
        (rows.take limit :: ·)
    else some [rows.take limit]

variable {key}

/-! ## One read -/

lemma perm_sortDesc (rows : List α) : (sortDesc key rows).Perm rows :=
  perm_insertionSort ..

lemma desc_sortDesc {rows : List α} (h : (rows.map key).Nodup) : Desc key (sortDesc key rows) := by
  have hsorted : (sortDesc key rows).Pairwise fun a b => key b ≤ key a :=
    pairwise_insertionSort _ _
  have hnodup : ((sortDesc key rows).map key).Nodup :=
    ((perm_sortDesc rows).map key).nodup_iff.mpr h
  have hne : (sortDesc key rows).Pairwise fun a b => key a ≠ key b := pairwise_map.mp hnodup
  exact (hsorted.and hne).imp fun hab => lt_of_le_of_ne hab.1 (Ne.symm hab.2)

lemma Desc.eq_of_perm {l1 l2 : List α} (h1 : Desc key l1) (h2 : Desc key l2)
    (h : l1.Perm l2) : l1 = l2 := by
  refine h.eq_of_pairwise (fun a b _ _ hab hba => ?_) h1 h2
  exact absurd (lt_trans hab hba) (lt_irrefl _)

lemma seek_sublist (cursor : Option κ) (rows : List α) : (seek key cursor rows).Sublist rows := by
  cases cursor with
  | none => exact List.Sublist.refl _
  | some => exact filter_sublist

lemma sortDesc_seek {rows : List α} (h : (rows.map key).Nodup) :
    sortDesc key (seek key cursor rows) = seek key cursor (sortDesc key rows) := by
  have hsub : ((seek key cursor rows).map key).Nodup := h.sublist ((seek_sublist _ _).map key)
  refine (desc_sortDesc hsub).eq_of_perm
    ((desc_sortDesc h).sublist (seek_sublist cursor _)) ((perm_sortDesc _).trans ?_)
  cases cursor with
  | none => exact (perm_sortDesc rows).symm
  | some => exact ((perm_sortDesc rows).filter _).symm

lemma Desc.exists_last {l : List α} (h : Desc key l) (hn : 0 < n) (hlen : n ≤ l.length) :
    ∃ last, (l.take n).getLast? = some last ∧ last ∈ l.take n ∧
      (∀ a ∈ l.take n, key last ≤ key a) ∧ ∀ a ∈ l.drop n, key a < key last := by
  have hne : l.take n ≠ [] := by
    intro hnil
    have := congrArg List.length hnil
    rw [length_take, length_nil] at this
    omega
  obtain ⟨init, last, htake⟩ := (eq_nil_or_concat (l.take n)).resolve_left hne
  rw [concat_eq_append] at htake
  have hl : Desc key (init ++ [last] ++ l.drop n) := by
    rw [← htake, take_append_drop]
    exact h
  obtain ⟨hfront, -, hcross⟩ := pairwise_append.mp hl
  rw [htake]
  refine ⟨last, getLast?_concat, by simp, fun a ha => ?_, hcross last (by simp)⟩
  rcases mem_append.mp ha with hinit | hlast
  · exact le_of_lt ((pairwise_append.mp hfront).2.2 a hinit last (by simp))
  · rw [mem_singleton.mp hlast]

lemma seek_getLast_take {l : List α} (h : Desc key l) (hn : 0 < n) (hlen : n ≤ l.length) :
    seek key ((l.take n).getLast?.map key) l = l.drop n := by
  obtain ⟨last, hlast, -, hfirst, hrest⟩ := h.exists_last hn hlen
  rw [hlast, Option.map_some, seek]
  conv_lhs => rw [← take_append_drop n l]
  rw [filter_append]
  have h1 : (l.take n).filter (fun a => decide (key a < key last)) = [] := by
    simpa using hfirst
  have h2 : (l.drop n).filter (fun a => decide (key a < key last)) = l.drop n := by
    simpa using hrest
  rw [h1, h2, nil_append]

lemma seek_seek {c : κ} {cursor : Option κ} (h : ∀ c' ∈ cursor, c < c') :
    seek key (some c) (seek key cursor rows) = seek key (some c) rows := by
  cases cursor with
  | none => rfl
  | some c' =>
    simp only [seek, filter_filter]
    refine filter_congr fun a _ => ?_
    by_cases ha : key a < c
    · simp [ha, ha.trans (h c' rfl)]
    · simp [ha]

/-! ## All reads -/

section Reads

variable {limit : Nat} {tables : Nat → List α}

lemma lt_of_mem_read {rows : List α} {a : α} (ha : a ∈ sortDesc key (seek key cursor rows)) :
    ∀ c ∈ cursor, key a < c := by
  rintro c rfl
  have ha' := (perm_sortDesc _).mem_iff.mp ha
  simpa using (mem_filter.mp ha').2

variable {pages : List (List α)}

lemma traverse_succ (h : traverse key limit tables (fuel + 1) k cursor = some pages) :
    (∃ rest, limit < (sortDesc key (seek key cursor (tables k))).length ∧
      traverse key limit tables fuel (k + 1)
        (((sortDesc key (seek key cursor (tables k))).take limit).getLast?.map key) = some rest ∧
      pages = (sortDesc key (seek key cursor (tables k))).take limit :: rest) ∨
    (sortDesc key (seek key cursor (tables k))).length ≤ limit ∧
      pages = [sortDesc key (seek key cursor (tables k))] := by
  simp only [traverse] at h
  split at h
  · next hlt =>
    obtain ⟨rest, hrest, rfl⟩ := Option.map_eq_some_iff.mp h
    exact .inl ⟨rest, hlt, hrest, rfl⟩
  · next hle =>
    cases h
    exact .inr ⟨by omega, by rw [take_of_length_le (by omega)]⟩

lemma traverse_mem (h : traverse key limit tables fuel k cursor = some pages) :
    pages ≠ [] ∧ ∀ a ∈ pages.flatten, ∃ j, a ∈ tables j := by
  induction fuel generalizing k cursor pages with
  | zero => cases h
  | succ fuel ih =>
    have hread : ∀ a ∈ sortDesc key (seek key cursor (tables k)), ∃ j, a ∈ tables j :=
      fun a ha => ⟨k, (seek_sublist _ _).subset ((perm_sortDesc _).mem_iff.mp ha)⟩
    rcases traverse_succ h with ⟨rest, -, hrest, rfl⟩ | ⟨-, rfl⟩
    · refine ⟨cons_ne_nil _ _, fun a ha => ?_⟩
      rcases mem_append.mp (flatten_cons ▸ ha) with ha | ha
      · exact hread a (mem_of_mem_take ha)
      · exact (ih hrest).2 a ha
    · exact ⟨cons_ne_nil _ _, fun a ha => hread a (by simpa using ha)⟩

lemma desc_read (hnodup : ∀ k, ((tables k).map key).Nodup) (cursor : Option κ) (k : Nat) :
    Desc key (sortDesc key (seek key cursor (tables k))) :=
  desc_sortDesc ((hnodup k).sublist ((seek_sublist _ _).map key))

lemma traverse_desc (hlimit : 0 < limit) (hnodup : ∀ k, ((tables k).map key).Nodup)
    (h : traverse key limit tables fuel k cursor = some pages) :
    Desc key pages.flatten ∧ ∀ a ∈ pages.flatten, ∀ c ∈ cursor, key a < c := by
  induction fuel generalizing k cursor pages with
  | zero => cases h
  | succ fuel ih =>
    have hdesc := desc_read hnodup cursor k
    rcases traverse_succ h with ⟨rest, hlt, hrest, rfl⟩ | ⟨-, rfl⟩
    · obtain ⟨last, hlast, hmem, hfirst, -⟩ := hdesc.exists_last hlimit (le_of_lt hlt)
      rw [hlast] at hrest
      obtain ⟨hd, hbelow⟩ := ih hrest
      -- the next pages are below the last row of this one, and so below all its rows
      have hnext : ∀ b ∈ rest.flatten, key b < key last := fun b hb => hbelow b hb _ rfl
      refine ⟨pairwise_append.mpr ⟨hdesc.sublist (take_sublist limit _), hd,
        fun a ha b hb => lt_of_lt_of_le (hnext b hb) (hfirst a ha)⟩, fun a ha c hc => ?_⟩
      rcases mem_append.mp ha with ha | ha
      · exact lt_of_mem_read (mem_of_mem_take ha) c hc
      · exact (hnext a ha).trans (lt_of_mem_read (mem_of_mem_take hmem) c hc)
    · refine ⟨by simpa using hdesc, fun a ha c hc => ?_⟩
      exact lt_of_mem_read (by simpa using ha) c hc

lemma mem_traverse (hlimit : 0 < limit) (hnodup : ∀ k, ((tables k).map key).Nodup)
    (h : traverse key limit tables fuel k cursor = some pages) {x : κ}
    (hx : ∀ j, k ≤ j → j < k + pages.length → x ∈ (tables j).map key) (hc : ∀ c ∈ cursor, x < c) :
    x ∈ pages.flatten.map key := by
  induction fuel generalizing k cursor pages with
  | zero => cases h
  | succ fuel ih =>
    have hread : k < k + pages.length → ∃ a ∈ sortDesc key (seek key cursor (tables k)),
        key a = x := by
      intro hk
      obtain ⟨a, ha, rfl⟩ := mem_map.mp (hx k (le_refl k) hk)
      refine ⟨a, (perm_sortDesc _).mem_iff.mpr ?_, rfl⟩
      cases cursor with
      | none => exact ha
      | some c => exact mem_filter.mpr ⟨ha, by simpa using hc c rfl⟩
    rcases traverse_succ h with ⟨rest, hlt, hrest, rfl⟩ | ⟨-, rfl⟩
    · obtain ⟨a, ha, rfl⟩ := hread (by simp)
      rw [flatten_cons, map_append, mem_append]
      rw [← take_append_drop limit (sortDesc key (seek key cursor (tables k)))] at ha
      rcases mem_append.mp ha with ha | ha
      · exact .inl (mem_map_of_mem ha)
      · obtain ⟨last, hlast, -, -, hdrop⟩ :=
          (desc_read hnodup cursor k).exists_last hlimit (le_of_lt hlt)
        rw [hlast] at hrest
        refine .inr (ih hrest (fun j hj hj' => hx j (by omega) ?_) ?_)
        · rw [length_cons]
          omega
        · intro c hc
          cases hc
          exact hdrop a ha
    · obtain ⟨a, ha, rfl⟩ := hread (by simp)
      simpa using ⟨a, ha, rfl⟩

lemma traverse_static (hlimit : 0 < limit) {rows : List α} (hnodup : (rows.map key).Nodup)
    {fuel : Nat} (k : Nat) {cursor : Option κ}
    (hfuel : (sortDesc key (seek key cursor rows)).length < fuel) :
    ∃ pages, traverse key limit (fun _ => rows) fuel k cursor = some pages ∧
      pages.flatten = sortDesc key (seek key cursor rows) ∧
      (sortDesc key (seek key cursor rows)).length ≤ pages.length * limit ∧
      pages = (List.range pages.length).map fun i =>
        ((sortDesc key (seek key cursor rows)).drop (i * limit)).take limit := by
  induction fuel generalizing k cursor with
  | zero => omega
  | succ fuel ih =>
    have hdesc : Desc key (sortDesc key (seek key cursor rows)) :=
      desc_read (fun _ => hnodup) cursor k
    by_cases hlt : limit < (sortDesc key (seek key cursor rows)).length
    · obtain ⟨last, hlast, hmem, -, -⟩ := hdesc.exists_last hlimit (le_of_lt hlt)
      -- the rows after this page are the rows that the next read finds
      have hnext : sortDesc key (seek key (some (key last)) rows) =
          (sortDesc key (seek key cursor rows)).drop limit := by
        rw [← seek_getLast_take hdesc hlimit (le_of_lt hlt), hlast, Option.map_some,
          sortDesc_seek hnodup, sortDesc_seek hnodup,
          seek_seek (lt_of_mem_read (mem_of_mem_take hmem))]
      obtain ⟨pages, htrav, hflat, hlen, hpages⟩ := @ih (k + 1) (some (key last))
        (by rw [hnext, length_drop]; omega)
      rw [hnext] at hflat hlen hpages
      refine ⟨(sortDesc key (seek key cursor rows)).take limit :: pages, ?_, ?_, ?_, ?_⟩
      · simp only [traverse, if_pos hlt, hlast, Option.map_some, htrav]
      · rw [flatten_cons, hflat, take_append_drop]
      · rw [length_drop] at hlen
        rw [length_cons, Nat.succ_mul]
        omega
      · rw [length_cons, range_succ_eq_map, map_cons, map_map]
        refine congrArg₂ List.cons (by simp) ?_
        refine hpages.trans (map_congr_left fun i _ => ?_)
        simp only [Function.comp_apply, drop_drop, Nat.succ_mul]
        rw [Nat.add_comm limit]
    · refine ⟨[sortDesc key (seek key cursor rows)], ?_, by simp, by simp; omega, ?_⟩
      · simp only [traverse, if_neg hlt]
        rw [take_of_length_le (by omega)]
      · simp only [length_singleton, range_one, map_singleton, Nat.zero_mul, drop_zero]
        rw [take_of_length_le (by omega)]

end Reads

end Paging
end CleanArch
