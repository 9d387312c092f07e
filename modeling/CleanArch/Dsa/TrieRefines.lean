import CleanArch.Dsa.TrieNodes

/-!
# The trie is a map

A trie stands for a map from words to payloads and frequencies (`entry`). `insert` and `delete`
change the entry of their own word, as `inserted` and `deleted` say, and no other one.
-/

namespace CleanArch

open Assoc Function List TrieNode

variable {P : Type}

/-! ## The map -/

namespace TrieNode

/-- The payloads and the frequency of a word, from the node that it leads to. -/
def entry (word : List Char) (node : TrieNode P) : Option (List P × Int) :=
  match node.walk word with
  | none => none
  | some n => if n.isTerminal then some (n.payloads, n.frequency) else none

variable {node : TrieNode P}

lemma entry_nil (node : TrieNode P) :
    node.entry [] = if node.isTerminal then some (node.payloads, node.frequency) else none := rfl

lemma entry_cons (node : TrieNode P) :
    node.entry (char :: chars) = (find node.children char).bind fun child => child.entry chars := by
  rw [entry, walk]
  cases find node.children char with
  | none | some => rfl

lemma entry_cons_congr {node' : TrieNode P} (h : node'.children = node.children) :
    node'.entry (char :: chars) = node.entry (char :: chars) := by
  rw [entry_cons, entry_cons, h]

lemma entry_new : ({} : TrieNode P).entry word = none := by
  cases word with
  | nil | cons => rfl

/-- A node with no word in it or below it. -/
def Dead (node : TrieNode P) : Prop := node.isTerminal = false ∧ node.children = []

lemma Dead.entry (h : node.Dead) (w : List Char) : node.entry w = none := by
  cases w with
  | nil =>
    rw [entry_nil, h.1]
    rfl
  | cons =>
    rw [entry_cons, h.2]
    rfl

lemma Dead.total (h : node.Dead) (weight : Bool → Nat) : node.total weight = weight false := by
  rw [total_eq, h.1, h.2]
  rfl

lemma dead_new : ({} : TrieNode P).Dead := ⟨rfl, rfl⟩

lemma find_setChild (node : TrieNode P) (char c : Char) (child' : TrieNode P) :
    find (node.setChild char child').children c =
      if char == c then some child' else find node.children c :=
  find_set node.children char c

lemma alive_setChild (node : TrieNode P) (char : Char) (child' : TrieNode P) :
    (node.setChild char child').Alive := by
  refine Or.inr fun hnil => ?_
  have hfind := find_setChild node char char child'
  rw [hnil, if_pos (beq_self_eq_true char)] at hfind
  cases hfind

lemma entry_setChild (node : TrieNode P) (char c : Char) (child' : TrieNode P) (w : List Char) :
    (node.setChild char child').entry (c :: w) =
      if char = c then child'.entry w else node.entry (c :: w) := by
  rw [entry_cons, find_setChild]
  by_cases hc : char = c
  · rw [if_pos (beq_iff_eq.mpr hc), if_pos hc]
    rfl
  · rw [if_neg (by simpa using hc), if_neg hc, entry_cons]

lemma entry_delChild (node : TrieNode P) (char c : Char) (w : List Char) :
    (node.delChild char).entry (c :: w) = if char = c then none else node.entry (c :: w) := by
  have hfind : find (node.delChild char).children c =
      if char == c then none else find node.children c :=
    find_erase node.children char
  rw [entry_cons, hfind]
  by_cases hc : char = c
  · rw [if_pos (beq_iff_eq.mpr hc), if_pos hc]
    rfl
  · rw [if_neg (by simpa using hc), if_neg hc, entry_cons]

/-- The count goes from `c` to `c'` as the sum of the weights does. -/
def Counted (weight : Bool → Nat) (node node' : TrieNode P) (c c' : Int) : Prop :=
  c' + node.total weight = c + node'.total weight

section Counted

variable {weight : Bool → Nat} {child child' : TrieNode P} {c c' : Int}

lemma Counted.total (h : Counted weight node node' c c') (hc : c = node.total weight) :
    c' = node'.total weight := by
  unfold Counted at h
  omega

lemma Counted.setChild (h : Counted weight child child' c c') (hd : Distinct node.children)
    (hfind : find node.children char = some child) :
    Counted weight node (node.setChild char child') c c' := by
  have htotal := total_setChild_of_find weight child' hd hfind
  unfold Counted at h ⊢
  omega

lemma Counted.newChild (h : Counted weight {} child' (c + weight false) c')
    (hfind : find node.children char = none) :
    Counted weight node (node.setChild char child') c c' := by
  have htotal := total_setChild_of_none weight child' hfind
  rw [Counted, dead_new.total] at h
  unfold Counted
  omega

lemma Counted.delChild (h : Counted weight child child' c c') (hdead : child'.Dead)
    (hd : Distinct node.children) (hfind : find node.children char = some child) :
    Counted weight node (node.delChild char) c (c' - weight false) := by
  have htotal := total_delChild weight hd hfind
  rw [Counted, hdead.total] at h
  unfold Counted
  omega

end Counted

variable [BEq P]

/-- The entry of a word after an insert: the payload comes last, unless the word has it. -/
def inserted (payload : Option P) (score : Int) (old : Option (List P × Int)) : List P × Int :=
  let (payloads, frequency) := old.getD ([], 0)
  (payloads ++ payload.toList.filter fun p => !payloads.any (· == p), frequency + max score 1)

/-- The entry of a word after a delete, of one payload or of the word. -/
def deleted (payload : Option P) (old : Option (List P × Int)) : Option (List P × Int) :=
  match old, payload with
  | some (payloads, frequency), some payload =>
    let rest := payloads.filter fun p => !(p == payload)
    if rest = [] then none else some (rest, frequency)
  | _, _ => none

lemma NodeOk.entry_nil_getD (h : node.NodeOk) :
    (node.entry []).getD ([], 0) = (node.payloads, node.frequency) := by
  rw [entry_nil]
  cases hterminal : node.isTerminal with
  | true => rfl
  | false =>
    obtain ⟨hpayloads, hfrequency⟩ := h.blank hterminal
    rw [hpayloads, hfrequency]
    rfl

/-! ## A child that has changed -/

lemma Ok.setChild (h : node.Ok) (hok : child'.Ok) (halive : child'.Alive) (char : Char) :
    (node.setChild char child').Ok := by
  obtain ⟨hnode, hbelow⟩ := ok_iff.mp h
  refine ok_iff.mpr ⟨⟨hnode.distinct.after_set _, ?_, hnode.blank, hnode.payloads⟩, ?_⟩
  · intro x hx
    rcases mem_setChild hnode.distinct hx with hx | hx
    · rw [hx]
      exact halive
    · exact hnode.alive x hx
  · intro x hx
    rcases mem_setChild hnode.distinct hx with hx | hx
    · rw [hx]
      exact hok
    · exact hbelow x hx

lemma Ok.delChild (h : node.Ok) (char : Char) : (node.delChild char).Ok := by
  obtain ⟨hnode, hbelow⟩ := ok_iff.mp h
  have hmem : ∀ x ∈ (node.delChild char).children, x ∈ node.children :=
    fun x hx => (mem_filter.mp hx).1
  refine ok_iff.mpr ⟨⟨hnode.distinct.after_erase, ?_, hnode.blank, hnode.payloads⟩, ?_⟩
  · exact fun x hx => hnode.alive x (hmem x hx)
  · exact fun x hx => hbelow x (hmem x hx)

/-! ## `insert` -/

section Insert

variable {payload : Option P} {score : Int}

lemma addPayload_eq (payloads : List P) (payload : Option P) : addPayload payloads payload =
    payloads ++ payload.toList.filter fun p => !payloads.any (· == p) := by
  cases payload with
  | none => exact (append_nil payloads).symm
  | some payload => cases hany : payloads.any (· == payload) <;> simp [addPayload, hany]

lemma pairwise_addPayload {payloads : List P}
    (h : payloads.Pairwise fun a b => (a == b) = false) (payload : Option P) :
    (addPayload payloads payload).Pairwise fun a b => (a == b) = false := by
  rw [addPayload_eq, pairwise_append]
  refine ⟨h, ?_, ?_⟩
  · cases payload with
    | none => exact List.Pairwise.nil
    | some payload => exact (pairwise_singleton _ _).filter _
  · intro a ha b hb
    have hnew := (mem_filter.mp hb).2
    rw [Bool.not_eq_true', any_eq_false] at hnew
    exact Bool.eq_false_iff.mpr (hnew a ha)

/-- What the walk of `insert` does. -/
structure Grown (payload : Option P) (score : Int) (word : List Char) (node node' : TrieNode P)
    (n n' : TrieCounts) : Prop where
  ok : node'.Ok
  alive : node'.Alive
  entry : ∀ w, node'.entry w =
    if w = word then some (inserted payload score (node.entry word)) else node.entry w
  nodeCount : Counted (fun _ => 1) node node' n.nodeCount n'.nodeCount
  wordCount : Counted Bool.toNat node node' n.wordCount n'.wordCount

lemma mark_grown (payload : Option P) (score : Int) (h : node.Ok) :
    Grown payload score [] node (node.mark payload score) n
      (if node.isTerminal then n else { n with wordCount := n.wordCount + 1 }) := by
  obtain ⟨hnode, hbelow⟩ := ok_iff.mp h
  refine ⟨ok_iff.mpr ⟨⟨hnode.distinct, hnode.alive, ?_, ?_⟩, hbelow⟩, Or.inl rfl, ?_, ?_, ?_⟩
  · nofun
  · exact pairwise_addPayload hnode.payloads payload
  · intro w
    cases w with
    | nil =>
      rw [if_pos rfl, inserted, hnode.entry_nil_getD]
      dsimp only
      rw [← addPayload_eq]
      rfl
    | cons char chars =>
      exact entry_cons_congr rfl
  · rw [Counted, total_eq, total_eq]
    split <;> rfl
  · rw [Counted, total_eq, total_eq]
    cases hterminal : node.isTerminal with
    | true => rfl
    | false =>
      simp only [mark, Bool.false_eq_true, if_false, Bool.toNat_false, Bool.toNat_true]
      omega

lemma Grown.entry_setChild {child child' : TrieNode P}
    (hchild : Grown payload score chars child child' n n')
    (hold : ∀ w, node.entry (char :: w) = child.entry w) (w : List Char) :
    (node.setChild char child').entry w =
      if w = char :: chars then some (inserted payload score (node.entry (char :: chars)))
      else node.entry w := by
  cases w with
  | nil => rfl
  | cons c =>
    rw [node.entry_setChild]
    by_cases hc : char = c
    · subst hc
      rw [if_pos rfl, hchild.entry, hold, hold]
      simp only [List.cons.injEq, true_and]
    · rw [if_neg hc, if_neg (by simp [Ne.symm hc])]

lemma insertAt_grown (payload : Option P) (score : Int) (h : node.Ok) (word : List Char)
    (n : TrieCounts) :
    Grown payload score word node (node.insertAt payload score word n).1 n
      (node.insertAt payload score word n).2 := by
  induction word generalizing node n with
  | nil => exact mark_grown payload score h
  | cons char chars ih =>
    obtain ⟨hnode, hbelow⟩ := ok_iff.mp h
    rw [insertAt]
    cases hfind : find node.children char with
    | some child =>
      have hchild : child.Ok := hbelow (char, child) (mem_of_find hfind)
      have hgrown := ih hchild n
      exact ⟨h.setChild hgrown.ok hgrown.alive char, node.alive_setChild char _,
        hgrown.entry_setChild fun w => by rw [entry_cons, hfind]; rfl,
        hgrown.nodeCount.setChild hnode.distinct hfind,
        hgrown.wordCount.setChild hnode.distinct hfind⟩
    | none =>
      -- a new node, which has been counted before the walk goes on
      have hgrown := ih ok_new { n with nodeCount := n.nodeCount + 1 }
      refine ⟨h.setChild hgrown.ok hgrown.alive char, node.alive_setChild char _,
        hgrown.entry_setChild fun w => by rw [entry_cons, hfind, entry_new]; rfl,
        hgrown.nodeCount.newChild hfind, Counted.newChild ?_ hfind⟩
      simpa using hgrown.wordCount

lemma insertAt_isTerminal (payload : Option P) (score : Int) (node : TrieNode P) :
    (node.insertAt payload score (char :: chars) n).1.isTerminal = node.isTerminal := by
  rw [insertAt]
  cases find node.children char with
  | none | some => rfl

end Insert

/-! ## `delete` -/

section Delete

variable {payload : Option P}

lemma eraseP_eq_filter [EquivBEq P] {payloads : List P}
    (h : payloads.Pairwise fun a b => (a == b) = false) (payload : P) :
    payloads.eraseP (· == payload) = payloads.filter fun p => !(p == payload) := by
  induction payloads with
  | nil => rfl
  | cons a payloads ih =>
    obtain ⟨ha, hrest⟩ := pairwise_cons.mp h
    by_cases hap : (a == payload) = true
    · rw [eraseP_cons_of_pos (p := (· == payload)) hap, filter_cons_of_neg (by simp [hap])]
      refine (filter_eq_self.mpr fun b hb => ?_).symm
      have hab := ha b hb
      cases hbp : b == payload with
      | false => rfl
      | true =>
        rw [BEq.trans hap (BEq.symm hbp)] at hab
        cases hab
    · rw [eraseP_cons_of_neg (p := (· == payload)) hap,
        filter_cons_of_pos (by simp [hap]), ih hrest]

/-- What `_prune` does. -/
structure PruneOk (payload : Option P) (word : List Char) (node : TrieNode P) (n : TrieCounts)
    (r : Pruned P) : Prop where
  ok : r.node.Ok
  dead : r.canDelete = true → r.node.Dead
  alive : r.canDelete = false → node.Alive → r.node.Alive
  found : r.found = (node.entry word).isSome
  entry : ∀ w, r.node.entry w =
    if w = word then deleted payload (node.entry word) else node.entry w
  nodeCount : Counted (fun _ => 1) node r.node n.nodeCount r.counts.nodeCount
  wordCount : Counted Bool.toNat node r.node n.wordCount r.counts.wordCount

lemma pruneOk_of_none (h : node.Ok) (hnone : node.entry word = none) :
    PruneOk payload word node n ⟨false, false, node, n⟩ := by
  refine ⟨h, ?_, fun _ halive => halive, ?_, ?_, rfl, rfl⟩
  · nofun
  · rw [hnone]
    rfl
  · intro w
    by_cases hw : w = word
    · rw [if_pos hw, hw, hnone]
      cases payload with
      | none | some => rfl
    · rw [if_neg hw]

lemma pruneOk_unmark (h : node.Ok) (hterminal : node.isTerminal = true)
    (hdeleted : deleted payload (node.entry []) = none) :
    PruneOk payload [] node n
      ⟨true, node.children.length == 0, node.unmark, { n with wordCount := n.wordCount - 1 }⟩ := by
  obtain ⟨hnode, hbelow⟩ := ok_iff.mp h
  refine
    ⟨ok_iff.mpr ⟨⟨hnode.distinct, hnode.alive, fun _ => ⟨rfl, rfl⟩, List.Pairwise.nil⟩, hbelow⟩,
    ?_, ?_, ?_, ?_, ?_, ?_⟩
  · intro hcan
    have hchildren : node.children = [] := by simpa using hcan
    exact ⟨rfl, hchildren⟩
  · intro hcan _
    refine Or.inr fun hnil => ?_
    have hchildren : node.children = [] := hnil
    simp [hchildren] at hcan
  · rw [entry_nil, hterminal]
    rfl
  · intro w
    cases w with
    | nil =>
      rw [if_pos rfl, hdeleted]
      rfl
    | cons char chars =>
      exact entry_cons_congr rfl
  · rw [Counted, total_eq, total_eq]
    rfl
  · rw [Counted, total_eq, total_eq, hterminal]
    simp only [unmark, Bool.toNat_false, Bool.toNat_true]
    omega

lemma pruneHere_ok [EquivBEq P] (payload : Option P) (h : node.Ok) :
    PruneOk payload [] node n (node.pruneHere payload n) := by
  obtain ⟨hnode, hbelow⟩ := ok_iff.mp h
  unfold pruneHere
  cases hterminal : node.isTerminal with
  | false => exact pruneOk_of_none h (by rw [entry_nil, hterminal]; rfl)
  | true =>
    cases payload with
    | none => exact pruneOk_unmark h hterminal (by rw [entry_nil, hterminal]; rfl)
    | some payload =>
      have hentry : node.entry [] = some (node.payloads, node.frequency) := by
        rw [entry_nil, hterminal]
        rfl
      have hremoved : (node.removePayload payload).payloads =
          node.payloads.filter fun p => !(p == payload) := eraseP_eq_filter hnode.payloads payload
      have hdeleted : deleted (some payload) (node.entry []) =
          if (node.removePayload payload).payloads = [] then none
          else some ((node.removePayload payload).payloads, node.frequency) := by
        rw [hentry, hremoved]
        rfl
      by_cases hleft : (node.removePayload payload).payloads.length > 0
      · simp only [Bool.not_true, Bool.false_eq_true, if_false, if_pos hleft]
        have hok : (node.removePayload payload).Ok := by
          refine ok_iff.mpr ⟨⟨hnode.distinct, hnode.alive, ?_, ?_⟩, hbelow⟩
          · intro hblank
            have hblank' : node.isTerminal = false := hblank
            rw [hterminal] at hblank'
            cases hblank'
          · rw [hremoved]
            exact hnode.payloads.filter _
        refine ⟨hok, ?_, fun _ _ => Or.inl hterminal, by rw [hentry]; rfl, ?_, ?_, ?_⟩
        · nofun
        · intro w
          cases w with
          | nil =>
            rw [if_pos rfl, hdeleted, if_neg (ne_nil_of_length_pos hleft), entry_nil]
            exact if_pos hterminal
          | cons char chars =>
            exact entry_cons_congr rfl
        all_goals
          rw [Counted, total_eq, total_eq]
          rfl
      · simp only [Bool.not_true, Bool.false_eq_true, if_false, if_neg hleft]
        have hnil : (node.removePayload payload).payloads = [] :=
          length_eq_zero_iff.mp (by omega)
        exact pruneOk_unmark h hterminal (by rw [hdeleted, if_pos hnil])

section Above

variable {child : TrieNode P} {r : Pruned P} (hr : PruneOk payload chars child n r)
  (hfind : find node.children char = some child)

include hr hfind

lemma PruneOk.entry_above {node' : TrieNode P} (hnil : node'.entry [] = node.entry [])
    (hcons : ∀ c w, node'.entry (c :: w) =
      if char = c then r.node.entry w else node.entry (c :: w)) (w : List Char) :
    node'.entry w = if w = char :: chars then deleted payload (node.entry (char :: chars))
      else node.entry w := by
  have hentry : ∀ w, node.entry (char :: w) = child.entry w := by
    intro w
    rw [entry_cons, hfind]
    rfl
  cases w with
  | nil => exact hnil
  | cons c =>
    rw [hcons]
    by_cases hc : char = c
    · subst hc
      rw [if_pos rfl, hentry, hentry, hr.entry]
      simp only [List.cons.injEq, true_and]
    · rw [if_neg hc, if_neg (by simp [Ne.symm hc])]

lemma PruneOk.found_above : r.found = (node.entry (char :: chars)).isSome := by
  rw [entry_cons, hfind]
  exact hr.found

lemma PruneOk.delChild (h : node.Ok) (hcan : r.canDelete = true) :
    PruneOk payload (char :: chars) node n
      ⟨r.found, (node.delChild char).children.length == 0 && !(node.delChild char).isTerminal,
        node.delChild char, { r.counts with nodeCount := r.counts.nodeCount - 1 }⟩ := by
  obtain ⟨hnode, -⟩ := ok_iff.mp h
  have hdead := hr.dead hcan
  refine ⟨h.delChild char, ?_, ?_, hr.found_above hfind, ?_,
    hr.nodeCount.delChild hdead hnode.distinct hfind, ?_⟩
  · intro hcan'
    simp only [Bool.and_eq_true, beq_iff_eq, length_eq_zero_iff, Bool.not_eq_true'] at hcan'
    exact ⟨hcan'.2, hcan'.1⟩
  · intro hcan' _
    by_cases hchildren : (node.delChild char).children = []
    · refine Or.inl ?_
      simpa [hchildren] using hcan'
    · exact Or.inr hchildren
  · -- no word goes through the child any more
    exact hr.entry_above hfind rfl fun c w => by rw [node.entry_delChild, hdead.entry w]
  · simpa using hr.wordCount.delChild hdead hnode.distinct hfind

lemma PruneOk.setChild (h : node.Ok) (hcan : r.canDelete = false) :
    PruneOk payload (char :: chars) node n
      ⟨r.found, false, node.setChild char r.node, r.counts⟩ := by
  obtain ⟨hnode, -⟩ := ok_iff.mp h
  have halive := hr.alive hcan (hnode.alive (char, child) (mem_of_find hfind))
  refine ⟨h.setChild hr.ok halive char, ?_, fun _ _ => node.alive_setChild char _,
    hr.found_above hfind, ?_, hr.nodeCount.setChild hnode.distinct hfind,
    hr.wordCount.setChild hnode.distinct hfind⟩
  · nofun
  · exact hr.entry_above hfind rfl fun c w => node.entry_setChild char c r.node w

end Above

lemma prune_ok [EquivBEq P] (payload : Option P) (h : node.Ok) (word : List Char) (n : TrieCounts) :
    PruneOk payload word node n (node.prune payload word n) := by
  induction word generalizing node n with
  | nil => exact pruneHere_ok payload h
  | cons char chars ih =>
    unfold prune
    cases hfind : find node.children char with
    | none => exact pruneOk_of_none h (by rw [entry_cons, hfind]; rfl)
    | some child =>
      have hchild : child.Ok := (ok_iff.mp h).2 (char, child) (mem_of_find hfind)
      have hr := ih hchild n
      cases hcan : (child.prune payload chars n).canDelete with
      | true =>
        simp only [hcan, if_true]
        exact hr.delChild hfind h hcan
      | false =>
        simp only [hcan, Bool.false_eq_true, if_false]
        exact hr.setChild hfind h hcan

lemma prune_isTerminal (payload : Option P) (node : TrieNode P) :
    (node.prune payload (char :: chars) n).node.isTerminal = node.isTerminal := by
  rw [prune]
  cases find node.children char with
  | none => rfl
  | some =>
    dsimp only
    split
    all_goals rfl

end Delete

/-! ## Counting words -/

lemma Ok.ncard_entries (h : node.Ok) : {w | (node.entry w).isSome}.Finite ∧
      {w | (node.entry w).isSome}.ncard = node.total Bool.toNat := by
  rw [total_toNat]
  refine ncard_words (h.nodup_words.sublist (filter_sublist.map _)) fun w => ?_
  simp only [Set.mem_ofPred_eq, mem_filter, h.mem_nodes_iff, entry]
  cases hwalk : node.walk w with
  | none => simp
  | some n => cases hterminal : n.isTerminal <;> simp [hterminal]

end TrieNode

/-! ## Tries -/

namespace PrefixTrie

variable [BEq P] [PyCase] {t : PrefixTrie P}

abbrev WordMap (P : Type) := List Char → Option (List P × Int)

def entry (t : PrefixTrie P) : WordMap P := fun word => t.root.entry word

/-- What an operation does to the map: nothing, if its key is blank. -/
def specCall (m : WordMap P) : TrieOp P → WordMap P
  | .insert key payload score =>
    if normalize key = [] then m
    else update m (normalize key)
      (some (inserted payload score (m (normalize key))))
  | .delete key payload =>
    if normalize key = [] then m
    else update m (normalize key) (deleted payload (m (normalize key)))
  | .clear => fun _ => none

def specRun (ops : List (TrieOp P)) : WordMap P := ops.foldl specCall fun _ => none

/-- The tree is pruned, and its nodes and words are as many as the trie counts. -/
structure WellFormed (t : PrefixTrie P) : Prop where
  ok : t.root.Ok
  root : t.root.isTerminal = false
  nodeCount : t.nodeCount = t.root.total fun _ => 1
  wordCount : t.wordCount = t.root.total Bool.toNat

omit [PyCase] in
lemma wellFormed_new : ({} : PrefixTrie P).WellFormed :=
  ⟨ok_new, rfl, rfl, rfl⟩

omit [PyCase] in
lemma WellFormed.entry_nil (h : t.WellFormed) : t.entry [] = none := by
  rw [entry, TrieNode.entry_nil, h.root]
  rfl

lemma WellFormed.insert (h : t.WellFormed) (key : String) (payload : Option P) (score : Int) :
    (t.insert key payload score).WellFormed ∧
      (t.insert key payload score).entry = specCall t.entry (.insert key payload score) := by
  rw [PrefixTrie.insert, specCall]
  cases hkey : normalize key with
  | nil => exact ⟨h, (if_pos rfl).symm⟩
  | cons char chars =>
    have hgrown := insertAt_grown payload score h.ok (char :: chars) t.toTrieCounts
    refine ⟨⟨hgrown.ok, ?_, hgrown.nodeCount.total h.nodeCount,
      hgrown.wordCount.total h.wordCount⟩, ?_⟩
    · rw [← h.root]
      exact insertAt_isTerminal payload score t.root
    · rw [if_neg (by simp)]
      funext w
      rw [update_apply]
      exact hgrown.entry w

lemma WellFormed.delete [EquivBEq P] (h : t.WellFormed) (key : String) (payload : Option P) :
    (t.delete key payload).2.WellFormed ∧
      (t.delete key payload).2.entry = specCall t.entry (.delete key payload) ∧
      (t.delete key payload).1 = (t.entry (normalize key)).isSome := by
  rw [PrefixTrie.delete, specCall]
  cases hkey : normalize key with
  | nil =>
    refine ⟨h, (if_pos rfl).symm, ?_⟩
    rw [h.entry_nil]
    rfl
  | cons char chars =>
    have hr := prune_ok payload h.ok (char :: chars) t.toTrieCounts
    refine ⟨⟨hr.ok, ?_, hr.nodeCount.total h.nodeCount, hr.wordCount.total h.wordCount⟩, ?_,
      hr.found⟩
    · rw [← h.root]
      exact prune_isTerminal payload t.root
    · rw [if_neg (by simp)]
      funext w
      rw [update_apply]
      exact hr.entry w

lemma WellFormed.call [EquivBEq P] (h : t.WellFormed) (op : TrieOp P) :
    (t.call op).WellFormed ∧ (t.call op).entry = specCall t.entry op := by
  cases op with
  | insert key payload score => exact h.insert key payload score
  | delete key payload => exact ⟨(h.delete key payload).1, (h.delete key payload).2.1⟩
  | clear =>
    refine ⟨wellFormed_new, ?_⟩
    funext w
    exact entry_new

lemma run_wellFormed [EquivBEq P] (ops : List (TrieOp P)) :
    (run ops).WellFormed ∧ (run ops).entry = specRun ops := by
  induction ops using reverseRecOn with
  | nil =>
    refine ⟨wellFormed_new, ?_⟩
    funext w
    exact entry_new
  | append_singleton ops op ih =>
    obtain ⟨hwf, hentry⟩ := ih
    rw [run, foldl_append, specRun, foldl_append]
    obtain ⟨hwf', hentry'⟩ := hwf.call op
    refine ⟨hwf', ?_⟩
    rw [hentry] at hentry'
    exact hentry'

lemma WellFormed.search_eq (h : t.WellFormed) :
    t.search key = (t.entry (normalize key)).map (·.1) := by
  rw [search]
  cases hkey : normalize key with
  | nil =>
    rw [h.entry_nil]
    rfl
  | cons char chars =>
    dsimp only
    rw [entry, TrieNode.entry]
    cases t.root.walk (char :: chars) with
    | none => rfl
    | some node => cases hterminal : node.isTerminal <;> simp [hterminal]

omit [PyCase] in
lemma WellFormed.pairwise_payloads (h : t.WellFormed) {payloads : List P} {frequency : Int}
    (hw : t.entry w = some (payloads, frequency)) :
    payloads.Pairwise fun a b => (a == b) = false := by
  rw [entry, TrieNode.entry] at hw
  cases hwalk : t.root.walk w with
  | none =>
    rw [hwalk] at hw
    cases hw
  | some =>
    rw [hwalk] at hw
    have hnode := (ok_iff.mp (h.ok.of_walk hwalk)).1.payloads
    dsimp only at hw
    split at hw
    · cases hw
      exact hnode
    · cases hw

lemma exists_key_of_specRun {ops : List (TrieOp P)} (h : (specRun ops w).isSome) :
    ∃ key, normalize key = w := by
  induction ops using reverseRecOn with
  | nil => cases h
  | append_singleton ops op ih =>
    rw [specRun, foldl_append] at h
    change (specCall (specRun ops) op w).isSome = true at h
    cases op with
    | insert key | delete key =>
      by_cases hw : normalize key = w
      · exact ⟨key, hw⟩
      · refine ih ?_
        rw [specCall] at h
        split at h
        · exact h
        · rwa [update_of_ne (Ne.symm hw)] at h
    | clear => cases h

/-- The trie after any calls: which map it stands for, and what its counts and its shape are. -/
theorem trie_refines_map [EquivBEq P] (ops : List (TrieOp P)) : (run ops).entry = specRun ops ∧
    (∀ key, (run ops).search key = (specRun ops (normalize key)).map (·.1)) ∧
    (∀ key payload, ((run ops).delete key payload).1 = (specRun ops (normalize key)).isSome) ∧
    (∀ w payloads frequency, specRun ops w = some (payloads, frequency) →
      w ≠ [] ∧ (∃ key, normalize key = w) ∧ payloads.Pairwise fun a b => (a == b) = false) ∧
    ({w | (specRun ops w).isSome}.Finite ∧
      (run ops).wordCount = {w | (specRun ops w).isSome}.ncard) ∧
    ({w | ((run ops).root.walk w).isSome}.Finite ∧
      (run ops).nodeCount = {w | ((run ops).root.walk w).isSome}.ncard) ∧
    ∀ w n, w ≠ [] → (run ops).root.walk w = some n → n.children = [] → n.isTerminal = true := by
  obtain ⟨hwf, hentry⟩ := run_wellFormed ops
  refine ⟨hentry, ?_, ?_, ?_, ?_, ?_, ?_⟩
  · intro key
    rw [← hentry]
    exact hwf.search_eq
  · intro key payload
    rw [← hentry]
    exact (hwf.delete key payload).2.2
  · intro w payloads frequency hw
    refine ⟨?_, exists_key_of_specRun (by rw [hw]; rfl), ?_⟩
    · rintro rfl
      rw [← hentry, hwf.entry_nil] at hw
      cases hw
    · rw [← hentry] at hw
      exact hwf.pairwise_payloads hw
  · rw [← hentry, hwf.wordCount]
    obtain ⟨hfinite, hcard⟩ := hwf.ok.ncard_entries
    exact ⟨hfinite, by rw [← hcard]; rfl⟩
  · rw [hwf.nodeCount]
    obtain ⟨hfinite, hcard⟩ := hwf.ok.ncard_nodes
    exact ⟨hfinite, by rw [← hcard]⟩
  · intro w n hw hwalk hleaf
    rcases hwf.ok.alive_of_walk hw hwalk with hterminal | hchildren
    · exact hterminal
    · exact absurd hleaf hchildren

omit [PyCase] in
/-- Two payloads of a word, of which one is deleted. -/
theorem trie_refines_map_two :
    (@run Nat _ asciiCase [.insert "Cat" (some 1) 1, .insert "cat " (some 2) 3,
      .delete "CAT" (some 1)]).entry "cat".toList = some ([2], 4) := by
  rw [(@trie_refines_map Nat _ asciiCase _ _).1]
  decide +kernel

end PrefixTrie
end CleanArch
