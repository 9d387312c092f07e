import CleanArch.Dsa.TrieRefines

/-!
# Autocomplete

`autocomplete` walks the tree below the node of its argument with a queue, sorts the words that it
has met, and returns the first ones. The words that were met and those below the queued nodes are
always the words below the first node (`collected_perm`).
-/

namespace CleanArch

open List Loops

variable {P : Type}

/-! ## Words below a node -/

namespace TrieNode

/-- The completions below a node to which `word` leads. -/
def completions (word : List Char) (node : TrieNode P) : List (PrefixTrie.Completion P) :=
  (node.nodes.filter fun x => x.2.isTerminal).map fun x =>
    (word ++ x.1, x.2.payloads, x.2.frequency)

lemma completions_eq (node : TrieNode P) : node.completions word =
      (if node.isTerminal then [(word, node.payloads, node.frequency)] else []) ++
        node.children.flatMap fun x => x.2.completions (word ++ [x.1]) := by
  have hbelow : ((node.children.flatMap fun x => x.2.nodes.map fun y => (x.1 :: y.1, y.2)).filter
        fun x => x.2.isTerminal).map (fun x => (word ++ x.1, x.2.payloads, x.2.frequency)) =
      node.children.flatMap fun x => x.2.completions (word ++ [x.1]) := by
    rw [filter_flatMap, map_flatMap]
    refine flatMap_congr fun x _ => ?_
    rw [completions, filter_map, map_map]
    refine map_congr_left fun y _ => ?_
    simp
  rw [completions, nodes_eq, filter_cons]
  cases hterminal : node.isTerminal with
  | true => simp [hbelow]
  | false => simpa using hbelow

lemma length_nodes_eq (node : TrieNode P) :
    node.nodes.length = 1 + (node.children.map fun x => x.2.nodes.length).sum := by
  rw [nodes_eq, length_cons, length_flatMap]
  simp only [length_map]
  omega

lemma walk_append (node : TrieNode P) :
    node.walk (w ++ w') = (node.walk w).bind fun n => n.walk w' := by
  induction w generalizing node with
  | nil => rfl
  | cons char chars ih =>
    rw [cons_append, walk, walk]
    cases Assoc.find node.children char with
    | none => rfl
    | some child => exact ih child

end TrieNode

/-! ## The loop -/

namespace PrefixTrie

/-- The words below the queued nodes. -/
def pending (queue : List (TrieNode P × List Char)) : List (Completion P) :=
  queue.flatMap fun q => q.1.completions q.2

def pendingNodes (queue : List (TrieNode P × List Char)) : Nat :=
  (queue.map fun q => q.1.nodes.length).sum

lemma collectRound_perm {s s' : List (TrieNode P × List Char) × List (Completion P)}
    (h : collectRound s = .again s') :
    (s'.2 ++ pending s'.1).Perm (s.2 ++ pending s.1) ∧ pendingNodes s'.1 < pendingNodes s.1 := by
  obtain ⟨queue, results⟩ := s
  cases queue with
  | nil => cases h
  | cons q queue =>
    obtain ⟨node, word⟩ := q
    cases h
    refine ⟨?_, ?_⟩
    · have hchildren : pending (node.children.map fun x => (x.2, word ++ [x.1])) =
          node.children.flatMap fun x => x.2.completions (word ++ [x.1]) := by
        rw [pending, flatMap_map]
      have happend : pending (queue ++ node.children.map fun x => (x.2, word ++ [x.1])) =
          pending queue ++ node.children.flatMap fun x => x.2.completions (word ++ [x.1]) := by
        rw [pending, flatMap_append, ← hchildren]
        rfl
      have hcons : pending ((node, word) :: queue) = node.completions word ++ pending queue := rfl
      have hresults : (if node.isTerminal then
            results ++ [(word, node.payloads, node.frequency)] else results) =
          results ++ if node.isTerminal then [(word, node.payloads, node.frequency)] else [] := by
        cases node.isTerminal with
        | true => rfl
        | false => simp
      rw [hresults, happend, hcons, node.completions_eq, append_assoc, append_assoc]
      exact (perm_append_comm.append_left _).append_left _
    · have hnodes := node.length_nodes_eq
      simp only [pendingNodes, map_append, map_map, sum_append, map_cons,
        sum_cons, Function.comp_def]
      omega

lemma collected_perm (node : TrieNode P) : ∃ results bound, results.Perm (node.completions word) ∧
      ∀ fuel, bound ≤ fuel → loop collectRound fuel ([(node, word)], []) = some results := by
  have hround : ∀ s s' : List (TrieNode P × List Char) × List (Completion P), True →
      collectRound s = .again s' → True ∧ pendingNodes s'.1 < pendingNodes s.1 :=
    fun s s' _ h => ⟨trivial, (collectRound_perm h).2⟩
  obtain ⟨results, hloop⟩ : ∃ results,
      loop collectRound (pendingNodes [(node, word)] + 1) ([(node, word)], []) = some results :=
    loop_of_measure (fun s => pendingNodes s.1) hround trivial (Nat.lt_succ_self _)
  refine ⟨results, _, ?_, fun fuel hfuel => loop_mono hfuel hloop⟩
  refine loop_induct (I := fun s => (s.2 ++ pending s.1).Perm (node.completions word))
    (Q := fun b => b.Perm (node.completions word)) ?_ ?_ ?_ hloop
  · intro s s' hs h
    exact (collectRound_perm h).1.trans hs
  · rintro ⟨queue, results⟩ b hs h
    cases queue with
    | nil =>
      cases h
      simpa [pending] using hs
    | cons => cases h
  · simp [pending]

/-! ## The order -/

/-- `a` comes before `b`: a higher frequency, or the same one and a smaller word. -/
def Before (a b : Completion P) : Prop :=
  b.2.2 < a.2.2 ∨ a.2.2 = b.2.2 ∧ a.1 < b.1

lemma completionLe_iff {a b : Completion P} :
    completionLe a b = true ↔ b.2.2 < a.2.2 ∨ a.2.2 = b.2.2 ∧ a.1 ≤ b.1 := by
  simp only [completionLe, Bool.or_eq_true, Bool.and_eq_true, decide_eq_true_eq, beq_iff_eq,
    neg_inj, neg_lt_neg_iff]

lemma completionLe_trans (a b c : Completion P) (hab : completionLe a b = true)
    (hbc : completionLe b c = true) : completionLe a c = true := by
  rw [completionLe_iff] at hab hbc ⊢
  rcases hab with hab | ⟨hab, hw⟩
  · rcases hbc with hbc | ⟨hbc, -⟩
    all_goals exact Or.inl (by omega)
  · rcases hbc with hbc | ⟨hbc, hw'⟩
    · exact Or.inl (by omega)
    · exact Or.inr ⟨hab.trans hbc, hw.trans hw'⟩

lemma completionLe_total (a b : Completion P) : (completionLe a b || completionLe b a) = true := by
  rw [Bool.or_eq_true, completionLe_iff, completionLe_iff]
  rcases lt_trichotomy a.2.2 b.2.2 with h | h | h
  · exact Or.inr (Or.inl h)
  · rcases le_total a.1 b.1 with hw | hw
    · exact Or.inl (Or.inr ⟨h, hw⟩)
    · exact Or.inr (Or.inr ⟨h.symm, hw⟩)
  · exact Or.inl (Or.inl h)

lemma pairwise_before {l : List (Completion P)} (hnodup : (l.map (·.1)).Nodup) :
    (l.mergeSort completionLe).Pairwise Before := by
  have hsorted := pairwise_mergeSort completionLe_trans completionLe_total l
  have hwords : ((l.mergeSort completionLe).map (·.1)).Nodup :=
    ((mergeSort_perm l completionLe).map _).nodup_iff.mpr hnodup
  rw [List.Nodup, pairwise_map] at hwords
  refine (hsorted.and hwords).imp fun {a b} hab => ?_
  rcases completionLe_iff.mp hab.1 with h | ⟨h, hw⟩
  · exact Or.inl h
  · exact Or.inr ⟨h, lt_of_le_of_ne hw hab.2⟩

/-! ## The result -/

lemma autocomplete_of_nil [PyCase] (h : normalize pre = []) :
    autocomplete fuel t pre limit = some [] := by
  rw [autocomplete, if_pos (Or.inl h)]

lemma autocomplete_of_sorted [PyCase] {t : PrefixTrie P} (words : List (Completion P))
    (hpre : ¬ (normalize pre = [] ∨ limit ≤ 0))
    (h : ((t.root.walk (normalize pre)).bind fun node => loop collectRound n
      ([(node, normalize pre)], [])) = some words)
    (hsorted : words.Pairwise fun a b => completionLe a b = true) (hfuel : n ≤ fuel) :
    t.autocomplete fuel pre limit = some ((words.take limit.toNat).map fun c => (c.1, c.2.1)) := by
  obtain ⟨node, hwalk, hloop⟩ := Option.bind_eq_some_iff.mp h
  rw [autocomplete, if_neg hpre, hwalk]
  simp only [loop_mono hfuel hloop, bind, pure, Option.bind_some, mergeSort_of_pairwise hsorted]

variable [BEq P]

lemma mem_completions {root node : TrieNode P} (h : root.Ok) (hwalk : root.walk word = some node)
    (payloads : List P) (frequency : Int) :
    (w, payloads, frequency) ∈ node.completions word ↔
      word <+: w ∧ root.entry w = some (payloads, frequency) := by
  have hentry : ∀ p, root.walk (word ++ p) = node.walk p := by
    intro p
    rw [TrieNode.walk_append, hwalk]
    rfl
  rw [TrieNode.completions, mem_map]
  constructor
  · rintro ⟨⟨p, n⟩, hmem, heq⟩
    obtain ⟨hnode, hterminal⟩ := mem_filter.mp hmem
    cases heq
    refine ⟨prefix_append word p, ?_⟩
    rw [TrieNode.entry, hentry, ((h.of_walk hwalk).mem_nodes_iff).mp hnode]
    exact if_pos hterminal
  · rintro ⟨⟨p, rfl⟩, hw⟩
    rw [TrieNode.entry, hentry] at hw
    cases hn : node.walk p with
    | none =>
      rw [hn] at hw
      cases hw
    | some n =>
      rw [hn] at hw
      dsimp only at hw
      split at hw
      · cases hw
        refine ⟨(p, n), mem_filter.mpr ⟨?_, by assumption⟩, rfl⟩
        exact ((h.of_walk hwalk).mem_nodes_iff).mpr hn
      · cases hw

lemma nodup_completions {node : TrieNode P} (h : node.Ok) (word : List Char) :
    ((node.completions word).map (·.1)).Nodup := by
  have hnodup : ((node.nodes.filter fun x => x.2.isTerminal).map (·.1)).Nodup :=
    h.nodup_words.sublist (filter_sublist.map _)
  have hmap := hnodup.map (f := fun p => word ++ p) fun a b hab => append_cancel_left hab
  rw [map_map] at hmap
  rw [TrieNode.completions, map_map]
  exact hmap

/-- The words of a trie that start with the normalised argument, each once and in order: the list
that `autocomplete` returns the first items of. -/
lemma WellFormed.autocomplete_words [PyCase] {t : PrefixTrie P} (h : t.WellFormed) (pre : String)
    (limit : Int) (hlimit : 0 < limit) :
    ∃ words : List (Completion P), (∀ w payloads frequency, (w, payloads, frequency) ∈ words ↔
        normalize pre ≠ [] ∧ normalize pre <+: w ∧ t.entry w = some (payloads, frequency)) ∧
      words.Pairwise Before ∧ (words.map (·.1)).Nodup ∧
      ∃ bound, ∀ fuel, bound ≤ fuel → autocomplete fuel t pre limit =
        some ((words.take limit.toNat).map fun c => (c.1, c.2.1)) := by
  by_cases hnil : normalize pre = []
  · refine ⟨[], ?_, List.Pairwise.nil, List.Pairwise.nil, 0, fun fuel _ => ?_⟩
    · simp [hnil]
    · rw [autocomplete_of_nil hnil, take_nil]
      rfl
  · have hgo : ¬ (normalize pre = [] ∨ limit ≤ 0) := by
      rintro (h | h)
      · exact hnil h
      · omega
    cases hwalk : t.root.walk (normalize pre) with
    | none =>
      refine ⟨[], ?_, List.Pairwise.nil, List.Pairwise.nil, 0, fun fuel _ => ?_⟩
      · -- a stored word that starts with it would lead through its node
        intro w payloads frequency
        refine iff_of_false not_mem_nil ?_
        rintro ⟨-, ⟨p, rfl⟩, hw⟩
        rw [entry, TrieNode.entry, TrieNode.walk_append, hwalk] at hw
        cases hw
      · rw [autocomplete, if_neg hgo, hwalk, take_nil]
        rfl
    | some node =>
      obtain ⟨results, bound, hperm, hloop⟩ := collected_perm node
      have hsorted := (mergeSort_perm results completionLe).trans hperm
      have hnodup := nodup_completions (h.ok.of_walk hwalk) (normalize pre)
      refine ⟨results.mergeSort completionLe, ?_, ?_, ?_, bound, fun fuel hfuel => ?_⟩
      · intro w payloads frequency
        rw [hsorted.mem_iff, mem_completions h.ok hwalk]
        exact ⟨fun h => ⟨hnil, h⟩, fun h => h.2⟩
      · exact pairwise_before ((hperm.map _).nodup_iff.mpr hnodup)
      · exact (hsorted.map _).nodup_iff.mpr hnodup
      · rw [autocomplete, if_neg hgo, hwalk]
        simp only [hloop fuel hfuel]
        rfl

/-- The list that `autocomplete` returns the first items of: the stored words that start with the
normalised argument, each once, in order. -/
theorem autocomplete_exact [PyCase] [EquivBEq P] (ops : List (TrieOp P)) (pre : String)
    (limit : Int) (hlimit : 0 < limit) :
    (normalize pre = [] → ∀ fuel, autocomplete fuel (run ops) pre limit = some []) ∧
    ∃ words : List (Completion P), (∀ w payloads frequency, (w, payloads, frequency) ∈ words ↔
        normalize pre ≠ [] ∧ normalize pre <+: w ∧ specRun ops w = some (payloads, frequency)) ∧
      words.Pairwise Before ∧
      ∃ bound, ∀ fuel, bound ≤ fuel → autocomplete fuel (run ops) pre limit =
          some ((words.take limit.toNat).map fun c => (c.1, c.2.1)) := by
  refine ⟨fun hnil fuel => autocomplete_of_nil hnil, ?_⟩
  obtain ⟨hwf, hentry⟩ := run_wellFormed ops
  obtain ⟨words, hwords, hordered, -, hbound⟩ := hwf.autocomplete_words pre limit hlimit
  rw [hentry] at hwords
  exact ⟨words, hwords, hordered, hbound⟩

/-- Three words with one start, of which two are asked for. -/
theorem autocomplete_exact_cat : (0 : Int) < 2 ∧ ∃ bound, ∀ fuel, bound ≤ fuel →
    @autocomplete Nat asciiCase fuel (@run Nat _ asciiCase
        [.insert "cab" (some 2) 5, .insert "car" none 5, .insert "cat" (some 1) 1]) "ca" 2 =
      some [("cab".toList, [2]), ("car".toList, [])] := by
  obtain ⟨-, words, -, -, bound, hbound⟩ := @autocomplete_exact Nat _ asciiCase _
    [.insert "cab" (some 2) 5, .insert "car" none 5, .insert "cat" (some 1) 1] "ca" 2 (by decide)
  refine ⟨by decide, bound, fun fuel hfuel => ?_⟩
  -- the first words are the same for each number of rounds
  rw [hbound fuel hfuel, ← hbound (max bound 5) (le_max_left _ _)]
  exact @autocomplete_of_sorted Nat "ca" 2 5 (max bound 5) asciiCase _
    [("cab".toList, [2], 5), ("car".toList, [], 5), ("cat".toList, [1], 1)]
    (by decide +kernel) (by rfl) (by decide +kernel) (le_max_right _ _)

end PrefixTrie

/-!
## The trie as an index

Which payloads a trie holds at which words (`Holds`), without their order and the frequencies. An
insert adds a payload at its word; a delete without a payload takes away all that its word holds,
whoever inserted it.
-/

namespace PrefixTrie

open List TrieNode

variable {P : Type} {t : PrefixTrie P} {w : List Char} {p : P}

/-- The trie holds `p` at the word `w`. -/
def Holds (t : PrefixTrie P) (w : List Char) (p : P) : Prop :=
  ∃ payloads frequency, t.entry w = some (payloads, frequency) ∧ p ∈ payloads

lemma holds_iff_mem_getD : t.Holds w p ↔ p ∈ ((t.entry w).getD ([], 0)).1 := by
  cases he : t.entry w with
  | none => simp [Holds, he]
  | some x =>
    obtain ⟨payloads, frequency⟩ := x
    simp [Holds, he]

variable [BEq P]

lemma WellFormed.ne_nil_of_holds (h : t.WellFormed) (hp : t.Holds w p) : w ≠ [] := by
  rintro rfl
  obtain ⟨payloads, frequency, hentry, -⟩ := hp
  rw [h.entry_nil] at hentry
  cases hentry

lemma WellFormed.length_le_wordCount (h : t.WellFormed) {l : List (List Char)} (hnodup : l.Nodup)
    (hl : ∀ w ∈ l, (t.entry w).isSome) : (l.length : Int) ≤ t.wordCount := by
  obtain ⟨hfinite, hcard⟩ := h.ok.ncard_entries
  have hsub : (↑l.toFinset : Set (List Char)) ⊆ {w | (t.root.entry w).isSome} := by
    intro w hw
    exact hl w (mem_toFinset.mp hw)
  have hle := Set.ncard_le_ncard hsub hfinite
  rw [Set.ncard_coe_finset, toFinset_card_of_nodup hnodup, hcard] at hle
  rw [h.wordCount]
  exact_mod_cast hle

variable [PyCase]

lemma WellFormed.autocomplete_holds (h : t.WellFormed) (hpre : normalize pre ≠ [])
    (hlimit : t.wordCount < limit) : ∃ words : List (List Char × List P),
      (∀ p, (∃ c ∈ words, p ∈ c.2) ↔ ∃ w, normalize pre <+: w ∧ t.Holds w p) ∧
      ∃ bound, ∀ fuel, bound ≤ fuel → autocomplete fuel t pre limit = some words := by
  have hcount : (0 : Int) ≤ t.wordCount := by
    rw [h.wordCount]
    exact Int.natCast_nonneg _
  obtain ⟨words, hwords, -, hnodup, bound, hbound⟩ :=
    h.autocomplete_words pre limit (by omega)
  have hlength : (words.length : Int) ≤ t.wordCount := by
    have := h.length_le_wordCount hnodup fun w hw => by
      obtain ⟨⟨w, payloads, frequency⟩, hc, rfl⟩ := mem_map.mp hw
      rw [((hwords _ _ _).mp hc).2.2]
      rfl
    rwa [length_map] at this
  refine ⟨words.map fun c => (c.1, c.2.1), fun p => ?_, bound, fun fuel hfuel => ?_⟩
  · constructor
    · rintro ⟨c, hmem, hp⟩
      obtain ⟨⟨w, payloads, frequency⟩, hc, rfl⟩ := mem_map.mp hmem
      obtain ⟨-, hpre, hentry⟩ := (hwords _ _ _).mp hc
      exact ⟨w, hpre, payloads, frequency, hentry, hp⟩
    · rintro ⟨w, hw, payloads, frequency, hentry, hp⟩
      refine ⟨(w, payloads), mem_map.mpr ⟨(w, payloads, frequency), ?_, rfl⟩, hp⟩
      exact (hwords _ _ _).mpr ⟨hpre, hw, hentry⟩
  · rw [hbound fuel hfuel, take_of_length_le (by omega)]

lemma WellFormed.holds_delete [EquivBEq P] (h : t.WellFormed) : (t.delete key none).2.WellFormed ∧
      ∀ w p, (t.delete key none).2.Holds w p ↔ t.Holds w p ∧ normalize key ≠ w := by
  obtain ⟨hwf, hentry, -⟩ := h.delete key none
  refine ⟨hwf, fun w p => ?_⟩
  rw [holds_iff_mem_getD, hentry, specCall, holds_iff_mem_getD]
  by_cases hnil : normalize key = []
  · rw [if_pos hnil, ← holds_iff_mem_getD]
    -- the empty word holds nothing
    exact ⟨fun hp => ⟨hp, fun hw => h.ne_nil_of_holds hp (hw ▸ hnil)⟩, fun hp => hp.1⟩
  · rw [if_neg hnil]
    by_cases hw : normalize key = w
    · subst hw
      simp [deleted]
    · rw [Function.update_of_ne (Ne.symm hw)]
      simp [hw]

variable [LawfulBEq P]

omit [PyCase] in
lemma mem_inserted (old : Option (List P × Int)) (payload : P) (score : Int) :
    p ∈ (inserted (some payload) score old).1 ↔ p ∈ (old.getD ([], 0)).1 ∨ payload = p := by
  by_cases hp : p ∈ (old.getD ([], 0)).1
  · simp [inserted, hp]
  · simp only [inserted, mem_append, mem_filter, Option.mem_toList, Option.some_inj]
    refine or_congr_right (and_iff_left_of_imp fun _ => ?_)
    rw [any_beq', Bool.not_eq_true', contains_eq_mem]
    exact decide_eq_false hp

lemma WellFormed.holds_insert (h : t.WellFormed) : (t.insert key (some payload) score).WellFormed ∧
      ∀ w p, (t.insert key (some payload) score).Holds w p ↔
        t.Holds w p ∨ (payload = p ∧ normalize key = w ∧ w ≠ []) := by
  obtain ⟨hwf, hentry⟩ := h.insert key (some payload) score
  refine ⟨hwf, fun w p => ?_⟩
  rw [holds_iff_mem_getD, hentry, specCall, holds_iff_mem_getD]
  by_cases hnil : normalize key = []
  · rw [if_pos hnil]
    refine ⟨.inl, fun hp => hp.elim id ?_⟩
    rintro ⟨-, hw, hne⟩
    exact absurd (hw ▸ hnil) hne
  · rw [if_neg hnil]
    by_cases hw : normalize key = w
    · subst hw
      have hmem := mem_inserted (p := p) (t.entry (normalize key)) payload score
      simpa [hnil] using hmem
    · rw [Function.update_of_ne (Ne.symm hw)]
      simp [hw]

end PrefixTrie

end CleanArch
