import CleanArch.Text.Wildcards

/-!
# Python's `fnmatch.fnmatchcase`

A pattern is read from left to right: `*` stands for any text, `?` for any character, `[…]` for one
character of a set, and every other character for itself. A bracket that is not closed stands for
itself too; a `]` right after `[` or `[!` does not close it. How the text between the brackets
describes a set (`!`, ranges) is left open (`PySeq`).
-/

namespace CleanArch
namespace Fnmatch

open Function List Wildcards

class PySeq where
  inSeq : List Char → Char → Bool

inductive Item where
  | lit (c : Char)
  | any
  | star
  | seq (stuff : List Char)
  deriving DecidableEq

/-! ## Reading a pattern -/

/-- Where the set that starts after a `[` ends; the index `j` of `fnmatch.translate`. -/
def seqEnd (rest : List Char) : Nat :=
  let bang := if rest.head? = some '!' then 1 else 0
  let first := if (rest.drop bang).head? = some ']' then 1 else 0
  bang + first + ((rest.drop (bang + first)).takeWhile (· ≠ ']')).length

/-- The pattern, read in at most `fuel` steps. -/
def parseFrom : (fuel : Nat) → List Char → List Item
  | 0, _ => []
  | _, [] => []
  | fuel + 1, c :: rest =>
    if c = '*' then .star :: parseFrom fuel rest
    else if c = '?' then .any :: parseFrom fuel rest
    else if c = '[' ∧ seqEnd rest < rest.length then
      .seq (rest.take (seqEnd rest)) :: parseFrom fuel (rest.drop (seqEnd rest + 1))
    else .lit c :: parseFrom fuel rest

def parse (pat : List Char) : List Item := parseFrom pat.length pat

variable [PySeq]

def Item.piece : Item → Piece Char
  | .lit c => .one (· == c)
  | .any => .one fun _ => true
  | .star => .many
  | .seq stuff => .one (PySeq.inSeq stuff)

def fnmatchcase (name pat : List Char) : Bool := matchPieces ((parse pat).map Item.piece) name

def plain (pat : List Char) : Bool := (parse pat).all fun
  | .lit _ => true
  | _ => false

/-! ## What is read -/

section Parse

omit [PySeq]

lemma seqEnd_pos (h : seqEnd rest < rest.length) : 0 < seqEnd rest := by
  cases rest with
  | nil => exact absurd h (Nat.not_lt_zero _)
  | cons c =>
    by_cases hbang : c = '!'
    · simp only [seqEnd, hbang, List.head?_cons, if_true]
      omega
    · by_cases hclose : c = ']'
      · simp only [seqEnd, hclose, List.head?_cons, Option.some.injEq, drop_zero,
          show ¬ ']' = '!' by decide, if_true, if_false]
        omega
      · simp [seqEnd, hbang, hclose]

lemma parseFrom_cons (fuel : Nat) (c : Char) (rest : List Char) :
    (c = '*' ∧ parseFrom (fuel + 1) (c :: rest) = .star :: parseFrom fuel rest) ∨
    (c = '?' ∧ parseFrom (fuel + 1) (c :: rest) = .any :: parseFrom fuel rest) ∨
    (∃ stuff rest', rest'.length + 2 ≤ rest.length ∧
      parseFrom (fuel + 1) (c :: rest) = .seq stuff :: parseFrom fuel rest') ∨
    (c ≠ '?' ∧ parseFrom (fuel + 1) (c :: rest) = .lit c :: parseFrom fuel rest) := by
  by_cases hstar : c = '*'
  · exact .inl ⟨hstar, by rw [parseFrom, if_pos hstar]⟩
  by_cases hany : c = '?'
  · exact .inr (.inl ⟨hany, by rw [parseFrom, if_neg hstar, if_pos hany]⟩)
  by_cases hseq : c = '[' ∧ seqEnd rest < rest.length
  · refine .inr (.inr (.inl ⟨rest.take (seqEnd rest), rest.drop (seqEnd rest + 1), ?_, ?_⟩))
    · have hpos := seqEnd_pos hseq.2
      rw [length_drop]
      omega
    · rw [parseFrom, if_neg hstar, if_neg hany, if_pos hseq]
  · refine .inr (.inr (.inr ⟨hany, ?_⟩))
    rw [parseFrom, if_neg hstar, if_neg hany, if_neg hseq]

lemma length_parseFrom (fuel : Nat) (pat : List Char) : (parseFrom fuel pat).length ≤ pat.length ∧
      ∀ stuff, .seq stuff ∈ parseFrom fuel pat → (parseFrom fuel pat).length < pat.length := by
  induction fuel generalizing pat with
  | zero => exact ⟨Nat.zero_le _, fun stuff h => absurd h not_mem_nil⟩
  | succ fuel ih =>
    cases pat with
    | nil => exact ⟨Nat.le_refl _, fun stuff h => absurd h not_mem_nil⟩
    | cons c rest =>
      have hone : ∀ item, (∀ stuff, .seq stuff ≠ item) →
          (item :: parseFrom fuel rest).length ≤ (c :: rest).length ∧
            ∀ stuff, .seq stuff ∈ item :: parseFrom fuel rest →
              (item :: parseFrom fuel rest).length < (c :: rest).length := by
        intro item hitem
        refine ⟨Nat.succ_le_succ (ih rest).1, fun stuff hmem => Nat.succ_lt_succ ?_⟩
        exact (ih rest).2 stuff ((mem_cons.mp hmem).resolve_left (hitem stuff))
      rcases parseFrom_cons fuel c rest with ⟨-, h⟩ | ⟨-, h⟩ | ⟨stuff, rest', hlen, h⟩ | ⟨-, h⟩
      · rw [h]
        exact hone .star nofun
      · rw [h]
        exact hone .any nofun
      · rw [h, length_cons, length_cons]
        have := (ih rest').1
        exact ⟨by omega, fun _ _ => by omega⟩
      · rw [h]
        exact hone (.lit c) nofun

lemma parseFrom_eq_map (hfuel : pat.length ≤ fuel) (hstar : .star ∉ parseFrom fuel pat)
    (hseq : ∀ stuff, .seq stuff ∉ parseFrom fuel pat) :
    parseFrom fuel pat = pat.map fun c => if c = '?' then .any else .lit c := by
  induction fuel generalizing pat with
  | zero =>
    rw [length_eq_zero_iff.mp (Nat.le_zero.mp hfuel)]
    rfl
  | succ fuel ih =>
    cases pat with
    | nil => rfl
    | cons c rest =>
      have hrest : ∀ item, parseFrom (fuel + 1) (c :: rest) = item :: parseFrom fuel rest →
          parseFrom fuel rest = rest.map fun c => if c = '?' then .any else .lit c := by
        intro item h
        rw [h] at hstar hseq
        exact ih (Nat.le_of_succ_le_succ hfuel) (fun hmem => hstar (mem_cons_of_mem _ hmem))
          fun stuff hmem => hseq stuff (mem_cons_of_mem _ hmem)
      rcases parseFrom_cons fuel c rest with ⟨-, h⟩ | ⟨hc, h⟩ | ⟨stuff, rest', -, h⟩ | ⟨hc, h⟩
      · exact absurd (h ▸ mem_cons_self) hstar
      · rw [h, hrest _ h, map_cons, if_pos hc]
      · exact absurd (h ▸ mem_cons_self) (hseq stuff)
      · rw [h, hrest _ h, map_cons, if_neg hc]

lemma parse_eq_map (hstar : .star ∉ parse pat) (hseq : ∀ stuff, .seq stuff ∉ parse pat) :
    parse pat = pat.map fun c => if c = '?' then .any else .lit c :=
  parseFrom_eq_map (Nat.le_refl _) hstar hseq

lemma mem_of_plain (h : plain pat = true) (hitem : item ∈ parse pat) : ∃ c, item = .lit c := by
  have := all_eq_true.mp h item hitem
  cases item with
  | lit c => exact ⟨c, rfl⟩
  | any | star | seq => cases this

lemma parse_of_plain (h : plain pat = true) : parse pat = pat.map .lit := by
  have hnot : ∀ item, (∀ c, item ≠ .lit c) → item ∉ parse pat := by
    intro item hitem hmem
    obtain ⟨c, hc⟩ := mem_of_plain h hmem
    exact hitem c hc
  have hparse := parse_eq_map (hnot .star nofun)
    fun stuff => hnot (.seq stuff) nofun
  rw [hparse]
  refine map_congr_left fun c hc => if_neg fun heq => ?_
  refine hnot .any (nofun) ?_
  rw [hparse]
  exact mem_map.mpr ⟨c, hc, if_pos heq⟩

end Parse

/-! ## What is matched -/

lemma fnmatchcase_iff : fnmatchcase name pat = true ↔
    Matches ((parse pat).map Item.piece) name := matchPieces_iff _

lemma fnmatchcase_plain_iff (h : plain pat = true) : fnmatchcase name pat = true ↔ name = pat := by
  rw [fnmatchcase_iff, parse_of_plain h, map_map]
  exact matches_literal_iff pat

lemma exists_other_of_any (hsep : 'a' ≠ sep) (hpat : sep ∉ pat)
    (hparse : parse pat = pat.map fun c => if c = '?' then .any else .lit c) (hany : '?' ∈ pat) :
    ∃ name, sep ∉ name ∧ fnmatchcase name pat = true ∧ name ≠ pat := by
  refine ⟨pat.map fun c => if c = '?' then 'a' else c, ?_, ?_, ?_⟩
  · intro hmem
    obtain ⟨c, hc, heq⟩ := mem_map.mp hmem
    split at heq
    · exact hsep heq
    · exact hpat (heq ▸ hc)
  · rw [fnmatchcase_iff, hparse, map_map]
    clear hparse hany hpat
    induction pat with
    | nil => exact .nil
    | cons c pat ih =>
      rw [map_cons, map_cons]
      by_cases hc : c = '?'
      · simp only [comp_apply, if_pos hc, Item.piece]
        exact .one rfl ih
      · simp only [comp_apply, if_neg hc, Item.piece]
        exact .one (beq_self_eq_true c) ih
  · intro heq
    rw [← heq] at hany
    obtain ⟨c, -, hc⟩ := mem_map.mp hany
    split at hc
    · cases hc
    · next hne => exact hne hc

lemma exists_other_match (hsep : 'a' ≠ sep) (hpat : sep ∉ pat) (hplain : plain pat = false)
    (hsome : ∃ name, sep ∉ name ∧ fnmatchcase name pat = true) :
    ∃ name, sep ∉ name ∧ fnmatchcase name pat = true ∧ name ≠ pat := by
  obtain ⟨name, hname, hmatch⟩ := hsome
  by_cases hne : name = pat
  swap
  · exact ⟨name, hname, hmatch, hne⟩
  by_cases hstar : .star ∈ parse pat
  · -- a longer text
    obtain ⟨longer, hlonger, hlen, hmem⟩ := (fnmatchcase_iff.mp hmatch).insert
      (mem_map_of_mem hstar) 'a'
    refine ⟨longer, fun hin => ?_, fnmatchcase_iff.mpr hlonger, fun heq => ?_⟩
    · rcases hmem sep hin with hin | heq
      · exact hname hin
      · exact hsep heq.symm
    · rw [heq, hne] at hlen
      omega
  -- every item takes one character
  have hlen : name.length = (parse pat).length := by
    have := (fnmatchcase_iff.mp hmatch).length_eq fun piece hpiece heq => ?_
    · rwa [length_map] at this
    · obtain ⟨item, hitem, hpiece⟩ := mem_map.mp hpiece
      rw [heq] at hpiece
      cases item with
      | star => exact hstar hitem
      | lit | any | seq => cases hpiece
  have hseq : ∀ stuff, .seq stuff ∉ parse pat := by
    intro stuff hmem
    have hlt := (length_parseFrom pat.length pat).2 stuff hmem
    rw [hne] at hlen
    exact Nat.ne_of_lt hlt hlen.symm
  have hparse := parse_eq_map hstar hseq
  refine exists_other_of_any hsep hpat hparse ?_
  by_contra hany
  have : plain pat = true := by
    rw [plain, hparse, all_map, all_eq_true]
    intro c hc
    have hc' : ¬ c = '?' := fun heq => hany (heq ▸ hc)
    rw [comp_apply, if_neg hc']
  rw [hplain] at this
  cases this

end Fnmatch

end CleanArch
