import CleanArch.Kafka.Consumer
import Mathlib.Data.List.Nodup

/-!
# At-least-once consumption

Each record below the committed offset of a group has been passed to a callback of that group that
has returned. The logs and the history only grow (`Extends`), and the history is in order: below the
offset of each of its records, all were processed before (`InOrder`).
-/

namespace CleanArch

open Assoc Async Bool Function KafkaCmd KafkaConsumer List Protocol Sys

def KafkaParams.group (params : KafkaParams) (t : Tid) : String :=
  (createKafkaConsumer params.settings (params.calls t)).groupId

structure ProcessedRecord where
  group : String
  tp : TopicPartition
  offset : Nat
  data : String
  deriving DecidableEq

def noteProcessed (params : KafkaParams) (t : Tid) (h : List ProcessedRecord) :
    (c : KafkaCmd) → Except KafkaError c.Res → List ProcessedRecord
  | .processCallback record data, .ok _ => h ++ [⟨params.group t, record.tp, record.offset, data⟩]
  | _, _ => h

@[reducible] def kafkaObserver (params : KafkaParams) : Observer kafkaMachine KafkaEnv where
  H := List ProcessedRecord
  turn t c r _ _ h := noteProcessed params t h c r
  world _ h := h

def ConsumerRecord.processedBy (record : ConsumerRecord) (group : String) : ProcessedRecord :=
  ⟨group, record.tp, record.offset, record.value⟩

def noteRecords (accepts : String → Bool) (group : String) :
    List ConsumerRecord → List ProcessedRecord → List ProcessedRecord
  | [], h => h
  | record :: records, h =>
    if accepts record.value then
      noteRecords accepts group records (h ++ [record.processedBy group])
    else h

/-- The same history, with the records of the calls without a callback: their loop has no await, so
it runs with the poll. -/
def noteDelivered (params : KafkaParams) (t : Tid) (h : List ProcessedRecord) :
    (c : KafkaCmd) → Except KafkaError c.Res → List ProcessedRecord
  | .processCallback record data, .ok _ => h ++ [⟨params.group t, record.tp, record.offset, data⟩]
  | .getmany _, .ok batch =>
    if (params.calls t).processCallback then h
    else noteRecords params.accepts (params.group t) (batch.flatMap (·.2)) h
  | _, _ => h

@[reducible] def deliveryObserver (params : KafkaParams) : Observer kafkaMachine KafkaEnv where
  H := List ProcessedRecord
  turn t c r _ _ h := noteDelivered params t h c r
  world _ h := h

abbrev KafkaView := Kafka × List ProcessedRecord

structure Extends (w w' : KafkaView) : Prop where
  logs : ∀ tp, w.1.logs tp <+: w'.1.logs tp
  history : w.2 ⊆ w'.2

lemma Extends.refl (w : KafkaView) : Extends w w :=
  ⟨fun _ => prefix_rfl, List.Subset.refl _⟩

lemma Extends.trans (h : Extends w1 w2) (h' : Extends w2 w3) : Extends w1 w3 :=
  ⟨fun tp => (h.logs tp).trans (h'.logs tp), List.Subset.trans h.history h'.history⟩

lemma extends_history (w : KafkaView) (h : w.2 ⊆ hist) : Extends w (w.1, hist) :=
  ⟨fun _ => prefix_rfl, h⟩

variable {tp : TopicPartition}

lemma Extends.getElem (h : Extends w w') {i : Nat} (he : (w.1.logs tp)[i]? = some e) :
    (w'.1.logs tp)[i]? = some e := by
  obtain ⟨rest, hrest⟩ := h.logs tp
  rw [← hrest, List.getElem?_append_left (List.getElem?_eq_some_iff.mp he).1]
  exact he

/-- The group has processed all the records of the partition below `n`. -/
def Done (group : String) (tp : TopicPartition) (n : Nat) (w : KafkaView) : Prop :=
  ∀ i < n, ∃ e, (w.1.logs tp)[i]? = some e ∧ ⟨group, tp, i, e.value⟩ ∈ w.2

lemma Done.mono (h : Done g tp n w) (hw : Extends w w') : Done g tp n w' := by
  intro i hi
  obtain ⟨e, he, hmem⟩ := h i hi
  exact ⟨e, hw.getElem he, hw.history hmem⟩

lemma done_zero (tp : TopicPartition) : Done g tp 0 w := nofun

lemma Done.succ (h : Done g tp n w) (he : (w.1.logs tp)[n]? = some e)
    (hmem : ⟨g, tp, n, e.value⟩ ∈ w.2) : Done g tp (n + 1) w := by
  intro i hi
  rcases Nat.lt_succ_iff_lt_or_eq.mp hi with hi | rfl
  · exact h i hi
  · exact ⟨e, he, hmem⟩

def InOrder (h : List ProcessedRecord) : Prop :=
  ∀ before r after, h = before ++ r :: after → ∀ i < r.offset,
    ∃ x ∈ before, x.group = r.group ∧ x.tp = r.tp ∧ x.offset = i

lemma InOrder.snoc (hh : InOrder h)
    (hr : ∀ i < r.offset, ∃ x ∈ h, x.group = r.group ∧ x.tp = r.tp ∧ x.offset = i) :
    InOrder (h ++ [r]) :=
  Steps.each_snoc hh hr

lemma Done.inOrder (h : Done g tp n w) (hh : InOrder w.2) (data : String) :
    InOrder (w.2 ++ [⟨g, tp, n, data⟩]) := by
  refine hh.snoc fun i hi => ?_
  obtain ⟨e, -, hmem⟩ := h i hi
  exact ⟨_, hmem, rfl, rfl, rfl⟩

structure AtLeastOnce (w : KafkaView) : Prop where
  offsets : ∀ (tp : TopicPartition) (i : Nat) e, (w.1.logs tp)[i]? = some e → e.offset = i
  committed : ∀ g tp n, w.1.committed g tp = some n → Done g tp n w

/-! ## One request -/

section Requests

variable {w : KafkaView} {tp : TopicPartition}

/-- The records are those of the partition log from the offset `n` on. -/
def Consecutive (w : KafkaView) (tp : TopicPartition) : Nat → List ConsumerRecord → Prop
  | _, [] => True
  | n, record :: records => record.tp = tp ∧ (w.1.logs tp)[n]? = some record.toLogEntry ∧
      Consecutive w tp (n + 1) records

lemma Consecutive.mono (hw : Extends w w') (h : Consecutive w tp n records) :
    Consecutive w' tp n records := by
  induction records generalizing n with
  | nil => trivial
  | cons record records ih => exact ⟨h.1, hw.getElem h.2.1, ih h.2.2⟩

lemma consecutive_of_getElem (h : ∀ (i : Nat) r, records[i]? = some r →
      r.tp = tp ∧ (w.1.logs tp)[n + i]? = some r.toLogEntry) : Consecutive w tp n records := by
  induction records generalizing n with
  | nil => trivial
  | cons record records ih =>
    obtain ⟨htp, hlog⟩ := h 0 record rfl
    refine ⟨htp, hlog, ih fun i r hr => ?_⟩
    rw [Nat.add_assoc, Nat.add_comm 1 i]
    exact h (i + 1) r hr

lemma readFrom_consecutive (w : KafkaView) (tp : TopicPartition) (count : Nat) :
    Consecutive w tp pos (readFrom w.1 tp pos count) := by
  refine consecutive_of_getElem fun i r hr => ?_
  rw [readFrom, List.getElem?_map] at hr
  obtain ⟨e, he, rfl⟩ := Option.map_eq_some_iff.mp hr
  rw [List.getElem?_take] at he
  split at he
  · rw [List.getElem?_drop] at he
    exact ⟨rfl, he⟩
  · cases he

def BatchOk (group : String) (w : KafkaView) (batch : List (TopicPartition × List ConsumerRecord)) :
    Prop :=
  ∀ p ∈ batch, ∃ n, Done group p.1 n w ∧ Consecutive w p.1 n p.2

lemma BatchOk.mono (hw : Extends w w') (h : BatchOk g w batch) : BatchOk g w' batch := by
  intro p hp
  obtain ⟨n, hdone, hrecords⟩ := h p hp
  exact ⟨n, hdone.mono hw, hrecords.mono hw⟩

lemma fetch_ok {tps : List TopicPartition} {f : Fetched} (htps : tps.Nodup)
    (hpos : ∀ tp ∈ tps, Done g tp ((find f.positions tp).getD 0) w)
    (hresult : BatchOk g w f.result) :
    BatchOk g w (KafkaConsumer.fetch w.1 limit tps f).result := by
  induction tps generalizing f with
  | nil => exact hresult
  | cons tp tps ih =>
    obtain ⟨hnot, htps⟩ := nodup_cons.mp htps
    rw [KafkaConsumer.fetch]
    split
    · exact hresult
    · refine ih htps (fun tp' htp' => ?_) ?_
      · -- the other partitions are where they were
        have hne : ¬ (tp == tp') = true := by
          rw [beq_iff_eq]
          rintro rfl
          exact hnot htp'
        rw [find_set, if_neg hne]
        exact hpos tp' (mem_cons_of_mem _ htp')
      · split
        · exact hresult
        · intro p hp
          rcases mem_append.mp hp with hp | hp
          · exact hresult p hp
          · rw [mem_singleton.mp hp]
            exact ⟨_, hpos tp mem_cons_self, readFrom_consecutive w _ _⟩

lemma commitAll_some
    (h : commitAll commits offsets tp = some n) : (tp, n) ∈ offsets ∨ commits tp = some n := by
  induction offsets generalizing commits with
  | nil => exact Or.inr h
  | cons p offsets ih =>
    rcases ih h with hmem | hcommits
    · exact Or.inl (mem_cons_of_mem _ hmem)
    · dsimp only at hcommits
      by_cases htp : tp = p.1
      · rw [htp, update_self] at hcommits
        cases hcommits
        exact Or.inl (htp ▸ mem_cons_self)
      · rw [update_of_ne htp] at hcommits
        exact Or.inr hcommits

lemma AtLeastOnce.commit (h : AtLeastOnce w) {offsets : List (TopicPartition × Nat)}
    (hoff : ∀ p ∈ offsets, Done g p.1 p.2 w) : AtLeastOnce (w.1.commit g offsets, w.2) where
  offsets := h.offsets
  committed g' tp n hn := by
    by_cases hg : g' = g
    · subst hg
      simp only [Kafka.commit, update_self] at hn
      rcases commitAll_some hn with hmem | hold
      · exact hoff _ hmem
      · exact h.committed _ tp n hold
    · simp only [Kafka.commit, update_of_ne hg] at hn
      exact h.committed g' tp n hn

lemma AtLeastOnce.history (h : AtLeastOnce w) (hsub : w.2 ⊆ h') : AtLeastOnce (w.1, h') where
  offsets := h.offsets
  committed g tp n hn := (h.committed g tp n hn).mono (extends_history w hsub)

lemma extends_send (w : KafkaView) (sha256 : String → Nat) (e : KafkaEnv) :
    Extends w (e.exec sha256 w.1, w.2) := by
  obtain ⟨topic, value, key, partition, timestamp⟩ := e
  refine ⟨fun tp => ?_, List.Subset.refl _⟩
  simp only [KafkaEnv.exec, Kafka.sendAndWait, update_apply]
  split
  · next htp =>
    rw [← htp]
    exact prefix_append _ _
  · exact prefix_rfl

lemma AtLeastOnce.send (h : AtLeastOnce w) (sha256 : String → Nat) (e : KafkaEnv) :
    AtLeastOnce (e.exec sha256 w.1, w.2) where
  offsets tp i entry hi := by
    obtain ⟨topic, value, key, partition, timestamp⟩ := e
    simp only [KafkaEnv.exec, Kafka.sendAndWait, update_apply] at hi
    split at hi
    · next htp =>
      rw [← htp, List.getElem?_append] at hi
      split at hi
      · exact h.offsets tp i entry hi
      · next hlen =>
        obtain ⟨hlt, heq⟩ := List.getElem?_eq_some_iff.mp hi
        simp only [List.length_singleton] at hlt
        simp only [getElem_singleton] at heq
        rw [← heq]
        dsimp only
        omega
    · exact h.offsets tp i entry hi
  committed g tp n hn := (h.committed g tp n hn).mono (extends_send w sha256 e)

lemma KafkaCmd.exec_logs (c : KafkaCmd) (o : KafkaAnswer) (l : KafkaConsumer) (s : Kafka) :
    (c.exec o l s).2.2.logs = s.logs := by
  cases c with
  | getmany | commit =>
    simp only [exec]
    split <;> rfl
  | _ => rfl

lemma KafkaCmd.exec_committed (c : KafkaCmd) (o : KafkaAnswer) (hg : g ≠ l.groupId) :
    (c.exec o l s).2.2.committed g = s.committed g := by
  cases c with
  | getmany =>
    simp only [exec]
    split <;> rfl
  | commit =>
    simp only [exec]
    split
    · exact update_of_ne hg _ _
    · rfl
  | _ => rfl

end Requests

/-! ## Polls without a callback -/

section Polls

variable {accepts : String → Bool} {g : String}

lemma subset_noteRecords (h : List ProcessedRecord) : h ⊆ noteRecords accepts g records h := by
  induction records generalizing h with
  | nil => exact List.Subset.refl _
  | cons record records ih =>
    rw [noteRecords]
    split
    · exact List.Subset.trans (subset_append_left _ _) (ih _)
    · exact List.Subset.refl _

def Noted (accepts : String → Bool) (g : String) (h : List ProcessedRecord) :
    List ConsumerRecord → Prop
  | [] => True
  | record :: records =>
    accepts record.value = true → record.processedBy g ∈ h ∧ Noted accepts g h records

lemma Noted.mono (hsub : h ⊆ h') (hn : Noted accepts g h records) : Noted accepts g h' records := by
  induction records with
  | nil => trivial
  | cons record records ih => exact fun ha => ⟨hsub (hn ha).1, ih (hn ha).2⟩

lemma noted_noteRecords (h : List ProcessedRecord) :
    Noted accepts g (noteRecords accepts g records h) records := by
  induction records generalizing h with
  | nil => trivial
  | cons record records ih =>
    intro ha
    rw [noteRecords, if_pos ha]
    refine ⟨subset_noteRecords _ ?_, ih _⟩
    exact mem_append_right _ (mem_singleton_self _)

lemma inOrder_noteRecords (hi : AtLeastOnce (s, h)) (hh : InOrder h) (hdone : Done g tp n (s, h))
    (hrecords : Consecutive (s, h) tp n records)
    (hrest : ∀ h', h ⊆ h' → InOrder h' → InOrder (noteRecords accepts g rest h')) :
    InOrder (noteRecords accepts g (records ++ rest) h) := by
  induction records generalizing n h with
  | nil => exact hrest h (List.Subset.refl _) hh
  | cons record records ih =>
    obtain ⟨htp, hlog, hrecords⟩ := hrecords
    have hoff : record.offset = n := hi.offsets tp n _ hlog
    have hnote : record.processedBy g = ⟨g, tp, n, record.value⟩ := by
      rw [ConsumerRecord.processedBy, htp, hoff]
    rw [cons_append, noteRecords, hnote]
    split
    · have hsub : h ⊆ h ++ [⟨g, tp, n, record.value⟩] := subset_append_left _ _
      have hext := extends_history (s, h) hsub
      refine ih (hi.history hsub) (hdone.inOrder hh _) ?_ (hrecords.mono hext) ?_
      · exact (hdone.mono hext).succ hlog (mem_append_right _ (mem_singleton_self _))
      · exact fun h' hsub' => hrest h' (List.Subset.trans hsub hsub')
    · exact hh

lemma BatchOk.inOrder (hi : AtLeastOnce (s, h)) (hh : InOrder h) (hbatch : BatchOk g (s, h) batch) :
    InOrder (noteRecords accepts g (batch.flatMap (·.2)) h) := by
  induction batch generalizing h with
  | nil => exact hh
  | cons p batch ih =>
    obtain ⟨n, hdone, hrecords⟩ := hbatch p mem_cons_self
    refine inOrder_noteRecords hi hh hdone hrecords fun h' hsub hh' => ?_
    have hrest : BatchOk g (s, h) batch := fun p hp => hbatch p (mem_cons_of_mem _ hp)
    exact ih (hi.history hsub) hh' (hrest.mono (extends_history _ hsub))

end Polls

/-! ## The calls -/

/-- A call relies on the logs and the history growing; every request is made by the consumer of its
group. -/
def deliveryProtocol (params : KafkaParams) :
    Protocol (kafkaMachine.observed (deliveryObserver params)) where
  inv w := AtLeastOnce w ∧ InOrder w.2
  rely _ := Extends
  good t _ l _ _ := l.groupId = params.group t
  refl _ := Extends.refl
  trans _ _ _ _ := Extends.trans

section Calls

variable {params : KafkaParams} {t : Tid} {l : KafkaConsumer} {w : KafkaView} {α : Type}

lemma subset_noteDelivered (h : List ProcessedRecord) : h ⊆ noteDelivered params t h c r := by
  cases c with
  | processCallback =>
    cases r with
    | ok => exact subset_append_left _ _
    | error => exact List.Subset.refl _
  | getmany =>
    cases r with
    | ok =>
      simp only [noteDelivered]
      split
      · exact List.Subset.refl _
      · exact subset_noteRecords _
    | error => exact List.Subset.refl _
  | _ => exact List.Subset.refl _

lemma extends_noteDelivered (w : KafkaView) : Extends w (w.1, noteDelivered params t w.2 c r) :=
  extends_history w (subset_noteDelivered w.2)

lemma deliveryProtocol_keeps (hl : l.groupId = params.group t)
    (hi : AtLeastOnce ((c.exec o l w.1).2.2, w.2))
    (hh : InOrder (noteDelivered params t w.2 c (c.exec o l w.1).1)) :
    (deliveryProtocol params).Keeps t c o l w := by
  refine ⟨hl, ⟨hi.history (subset_noteDelivered _), hh⟩, fun _ _ => ⟨fun tp => ?_, ?_⟩⟩
  · have hlogs : (c.exec o l w.1).2.2.logs tp = w.1.logs tp :=
      congrFun (exec_logs c o l w.1) tp
    exact ⟨[], (append_nil _).trans hlogs.symm⟩
  · exact subset_noteDelivered _

def ConsumedOk (params : KafkaParams) (t : Tid) (acc : Consumed) (w : KafkaView) : Prop :=
  ∀ p ∈ acc.offsetsToCommit, Done (params.group t) p.1 p.2 w

variable {acc : Consumed}

/-- One request: what it does to the logs and to the history, and the post from its answer. -/
lemma wp_kafka {k : c.Res → KafkaProg α}
    {Q : Except KafkaError α → KafkaConsumer → KafkaView → Prop}
    (hl : l.groupId = params.group t) (h : ∀ w' o, Extends w w' → AtLeastOnce w' → InOrder w'.2 →
      ∀ r l' s, c.exec o l w'.1 = (r, l', s) →
        AtLeastOnce (s, w'.2) ∧ InOrder (noteDelivered params t w'.2 c r) ∧
          (deliveryProtocol params).wp t ((Prog.ofExcept r).bind k) Q l'
            (s, noteDelivered params t w'.2 c r)) :
    (deliveryProtocol params).wp t ((kafka c).bind k) Q l w := by
  intro w' o hr hi _
  obtain ⟨hi', hh, hpost⟩ := h w' o hr hi.1 hi.2 _ _ _ rfl
  exact ⟨deliveryProtocol_keeps hl hi' hh, hpost⟩

lemma ConsumedOk.mono (h : ConsumedOk params t acc w) (hw : Extends w w') :
    ConsumedOk params t acc w' := fun p hp => (h p hp).mono hw

/-- The post of a part of the program: `R` of its result, and the consumer of the group. -/
def KafkaPost (params : KafkaParams) (t : Tid) {α : Type} (R : α → KafkaView → Prop)
    (r : Except KafkaError α) (l : KafkaConsumer) (w : KafkaView) : Prop :=
  l.groupId = params.group t ∧ ∀ a, r = .ok a → R a w

lemma kafkaPost_stable (params : KafkaParams) (t : Tid)
    (hR : ∀ a w w', R a w → Extends w w' → R a w') :
    (deliveryProtocol params).Stable t (KafkaPost params t R) :=
  fun _ _ _ _ h hr => ⟨h.1, fun a ha => hR a _ _ (h.2 a ha) hr.rely⟩

lemma consumedOk_stable (params : KafkaParams) (t : Tid) :
    (deliveryProtocol params).Stable t (KafkaPost params t (ConsumedOk params t)) :=
  kafkaPost_stable params t fun _ _ _ h hw => h.mono hw

lemma anyResult_stable (params : KafkaParams) (t : Tid) :
    (deliveryProtocol params).Stable t (KafkaPost params t fun (_ : α) _ => True) :=
  kafkaPost_stable params t fun _ _ _ _ _ => trivial

lemma KafkaPost.error (hl : l.groupId = params.group t) (e : KafkaError) :
    KafkaPost params t R (.error e) l w :=
  ⟨hl, nofun⟩

lemma KafkaPost.ok (hl : l.groupId = params.group t) {a : α} (ha : R a w) :
    KafkaPost params t R (.ok a) l w :=
  ⟨hl, fun b hb => by cases hb; exact ha⟩

def Reached (params : KafkaParams) (t : Tid) (tp : TopicPartition) (n : Nat) (acc : Consumed)
    (w : KafkaView) : Prop :=
  ConsumedOk params t acc w ∧ Done (params.group t) tp n w

variable {tp : TopicPartition}

lemma Reached.mono (h : Reached params t tp n acc w) (hw : Extends w w') :
    Reached params t tp n acc w' :=
  ⟨h.1.mono hw, h.2.mono hw⟩

lemma Reached.next {record : ConsumerRecord} (h : Reached params t tp n acc w)
    (hoff : record.offset = n) (hlog : (w.1.logs tp)[n]? = some record.toLogEntry)
    (hmem : ⟨params.group t, tp, n, record.value⟩ ∈ w.2) (events : List String)
    (offsets : List (Nat × Nat)) : Reached params t tp (n + 1)
      ⟨events, set acc.offsetsToCommit tp (record.offset + 1), offsets⟩ w := by
  have hnext : Done (params.group t) tp (n + 1) w := h.2.succ hlog hmem
  refine ⟨fun p hp => ?_, hnext⟩
  rcases mem_set hp with ⟨hk, hv⟩ | ⟨hp, -⟩
  · rw [beq_iff_eq.mp hk, hv, hoff]
    exact hnext
  · exact h.1 p hp

lemma wp_processRecord (hl : l.groupId = params.group t) (htp : record.tp = tp)
    (hlog : (w.1.logs tp)[n]? = some record.toLogEntry) (hacc : Reached params t tp n acc w)
    (hnoted : (params.calls t).processCallback = false → params.accepts record.value = true →
      record.processedBy (params.group t) ∈ w.2) : (deliveryProtocol params).wp t
      (processRecord params.accepts (params.calls t) tp record acc)
      (KafkaPost params t fun acc w => Reached params t tp (n + 1) acc w ∧
        params.accepts record.value = true) l w := by
  have hstable := kafkaPost_stable params t
    (R := fun acc w => Reached params t tp (n + 1) acc w ∧ params.accepts record.value = true)
    fun a w w' h hw => ⟨h.1.mono hw, h.2⟩
  refine hstable.raiseIf_bind (fun haccepts => ?_) fun _ => .error hl _
  rw [not_eq_false] at haccepts
  cases hcallback : (params.calls t).processCallback with
  | false =>
    refine wp_of_forall fun w' hr hi => ?_
    have hlog' := hr.getElem hlog
    have hoff : record.offset = n := hi.1.offsets tp n _ hlog'
    have hmem := hr.history (hnoted hcallback haccepts)
    rw [ConsumerRecord.processedBy, htp, hoff] at hmem
    exact hstable.ret (.ok hl ⟨(hacc.mono hr).next hoff hlog' hmem _ _, haccepts⟩)
  | true =>
    refine wp_kafka hl fun w' o hr hi hh r l' s hexec => ?_
    have hlog' := hr.getElem hlog
    obtain rfl : record.offset = n := hi.offsets tp n _ hlog'
    rw [exec] at hexec
    split at hexec
    · cases hexec
      exact ⟨hi, hh, hstable.raise (.error hl _)⟩
    · cases hexec
      have hw := hr.trans
        (extends_history w'
          (subset_append_left _ [⟨params.group t, tp, record.offset, record.value⟩]))
      simp only [noteDelivered, htp]
      refine ⟨hi, (hacc.mono hr).2.inOrder hh _, ?_⟩
      refine hstable.ret (.ok hl ⟨(hacc.mono hw).next rfl hlog' ?_ _ _, haccepts⟩)
      exact mem_append_right _ (mem_singleton_self _)

lemma wp_extends {p : KafkaProg α} {Q : Except KafkaError α → KafkaConsumer → KafkaView → Prop}
    {F : KafkaView → Prop} (hF : ∀ w w', F w → Extends w w' → F w')
    (h : (deliveryProtocol params).wp t p Q l w) (hw : F w) :
    (deliveryProtocol params).wp t p (fun r l w => Q r l w ∧ F w) l w := by
  refine wp_frame hF (fun c o l w hw hk => hF _ _ hw ?_) h hw
  exact hk.rely (t + 1) (Nat.succ_ne_self t)

def NotedBy (params : KafkaParams) (t : Tid) (records : List ConsumerRecord) (w : KafkaView) :
    Prop :=
  (params.calls t).processCallback = false →
    Noted params.accepts (params.group t) w.2 records

lemma NotedBy.mono (h : NotedBy params t records w) (hw : Extends w w') :
    NotedBy params t records w' :=
  fun hc => (h hc).mono hw.history

lemma wp_processRecords (hl : l.groupId = params.group t) (hrecords : Consecutive w tp n records)
    (hacc : Reached params t tp n acc w) (hnoted : NotedBy params t (records ++ rest) w) :
    (deliveryProtocol params).wp t (processRecords params.accepts (params.calls t) tp records acc)
      (KafkaPost params t fun acc w => ConsumedOk params t acc w ∧ NotedBy params t rest w)
      l w := by
  have hstable := kafkaPost_stable params t
    (R := fun acc w => ConsumedOk params t acc w ∧ NotedBy params t rest w)
    fun a w w' h hw => ⟨h.1.mono hw, h.2.mono hw⟩
  induction records generalizing n acc l w with
  | nil => exact hstable.ret (.ok hl ⟨hacc.1, hnoted⟩)
  | cons record records ih =>
    obtain ⟨htp, hlog, hrecords⟩ := hrecords
    have hfirst := wp_extends
      (F := fun w => Consecutive w tp (n + 1) records ∧
        NotedBy params t (record :: (records ++ rest)) w)
      (fun _ _ h hw => ⟨h.1.mono hw, h.2.mono hw⟩)
      (wp_processRecord hl htp hlog hacc fun hc ha => (hnoted hc ha).1) ⟨hrecords, hnoted⟩
    refine wp_bind (wp_mono hfirst ?_)
    rintro r l w _ ⟨hpost, hrecords, hnoted⟩
    cases r with
    | error e => exact .error hpost.1 e
    | ok acc =>
      obtain ⟨hreached, haccepts⟩ := hpost.2 acc rfl
      exact ih hpost.1 hrecords hreached fun hc => (hnoted hc haccepts).2

lemma wp_processPartitions (hl : l.groupId = params.group t)
    (hbatch : BatchOk (params.group t) w batch) (hacc : ConsumedOk params t acc w)
    (hnoted : NotedBy params t (batch.flatMap (·.2)) w) : (deliveryProtocol params).wp t
      (processPartitions params.accepts (params.calls t) batch acc)
      (KafkaPost params t (ConsumedOk params t)) l w := by
  induction batch generalizing acc l w with
  | nil => exact (consumedOk_stable params t).ret (.ok hl hacc)
  | cons p batch ih =>
    obtain ⟨tp, records⟩ := p
    obtain ⟨n, hdone, hrecords⟩ := hbatch _ mem_cons_self
    have hrest : BatchOk (params.group t) w batch :=
      fun p hp => hbatch p (mem_cons_of_mem _ hp)
    have hfirst := wp_extends (F := fun w => BatchOk (params.group t) w batch)
      (fun _ _ h hw => h.mono hw) (wp_processRecords hl hrecords ⟨hacc, hdone⟩ hnoted) hrest
    refine wp_bind (wp_mono hfirst ?_)
    rintro r l w _ ⟨hpost, hrest⟩
    cases r with
    | error e => exact .error hpost.1 e
    | ok acc => exact ih hpost.1 hrest (hpost.2 acc rfl).1 (hpost.2 acc rfl).2

/-- What `start` gives: distinct partitions, at positions below which all is done. -/
structure Started (params : KafkaParams) (t : Tid) (l : KafkaConsumer) (w : KafkaView) : Prop where
  group : l.groupId = params.group t
  assigned : l.assigned.Nodup
  positions : ∀ tp, Done (params.group t) tp (l.position tp) w

lemma Started.mono (h : Started params t l w) (hw : Extends w w') : Started params t l w' :=
  ⟨h.group, h.assigned, fun tp => (h.positions tp).mono hw⟩

lemma AtLeastOnce.started (hi : AtLeastOnce w) (hl : l.groupId = params.group t)
    (hreset : l.autoOffsetReset = .earliest) : Started params t (l.start w.1) w where
  group := hl
  assigned := by
    refine (nodup_range).map fun p q h => ?_
    exact (TopicPartition.mk.inj h).2
  positions tp := by
    rw [position]
    cases hfind : find (l.start w.1).positions tp with
    | none => exact done_zero _
    | some =>
      obtain ⟨tp', -, heq⟩ := mem_map.mp (mem_of_find hfind)
      obtain ⟨rfl, rfl⟩ := Prod.mk.inj heq
      unfold startPosition
      split
      · next hcommitted => exact hi.committed _ _ _ (hl ▸ hcommitted)
      · rw [hreset]
        exact done_zero _

lemma Started.getmany (h : Started params t l w) (order : List TopicPartition)
    (maxRecords : Int) : BatchOk (params.group t) w (l.getmany w.1 order maxRecords).1 := by
  refine fetch_ok ?_ (fun tp _ => h.positions tp) nofun
  split
  · next hperm => exact (isPerm_iff.mp hperm).nodup_iff.mpr h.assigned
  · exact h.assigned

lemma wp_commitOffsets (hl : l.groupId = params.group t) (hacc : ConsumedOk params t acc w) :
    (deliveryProtocol params).wp t
      ((kafka (.commit acc.offsetsToCommit)).bind fun _ => .ret response)
      (KafkaPost params t fun _ _ => True) l w := by
  refine wp_kafka hl fun w' o hr hi hh r l' s hexec => ?_
  rw [exec] at hexec
  split at hexec
  · cases hexec
    refine ⟨?_, hh, (anyResult_stable params t).ret (.ok hl trivial)⟩
    rw [hl]
    exact hi.commit fun p hp => (hacc p hp).mono hr
  · cases hexec
    exact ⟨hi, hh, (anyResult_stable params t).raise (.error hl _)⟩

lemma notedBy_noteDelivered (h : List ProcessedRecord) : NotedBy params t (batch.flatMap (·.2))
      (s, noteDelivered params t h (.getmany maxRecords) (.ok batch)) := by
  intro hcallback
  simp only [noteDelivered, hcallback, false_eq_true, if_false]
  exact noted_noteRecords _

lemma wp_pollBatch (h : Started params t l w) :
    (deliveryProtocol params).wp t (pollBatch params.accepts (params.calls t))
      (KafkaPost params t fun _ _ => True) l w := by
  refine wp_kafka h.group fun w' o hr hi hh r l' s hexec => ?_
  rw [exec] at hexec
  split at hexec
  · cases hexec
    have hbatch := (h.mono hr).getmany o.order (params.calls t).batchSize
    refine ⟨hi, ?_, ?_⟩
    · simp only [noteDelivered]
      split
      · exact hh
      · exact hbatch.inOrder hi hh
    · dsimp only [Prog.ofExcept, Prog.bind]
      refine wp_bind (wp_mono (wp_processPartitions h.group
        (hbatch.mono (extends_noteDelivered w')) (nofun) (notedBy_noteDelivered _)) ?_)
      intro r l' w'' _ hpost
      cases r with
      | error e => exact .error hpost.1 e
      | ok acc =>
        dsimp only
        split
        · exact wp_commitOffsets hpost.1 (hpost.2 acc rfl)
        · exact (anyResult_stable params t).ret (.ok hpost.1 trivial)
  · cases hexec
    exact ⟨hi, hh, (anyResult_stable params t).raise (.error h.group _)⟩

lemma wp_consumeBatch (hreset : params.settings.autoOffsetReset = .earliest) :
    (deliveryProtocol params).wp t (consumeBatch params.accepts (params.calls t))
      (KafkaPost params t fun _ _ => True)
      (createKafkaConsumer params.settings (params.calls t)) w := by
  refine wp_kafka rfl fun w' o hr hi hh r l' s hexec => ?_
  cases hexec
  refine ⟨hi, hh, ?_⟩
  dsimp only [Prog.ofExcept, Prog.bind]
  refine wp_bind (wp_attempt ?_)
  refine wp_mono (wp_pollBatch (hi.started rfl hreset)) fun r l w hi' hpost => ?_
  -- `finally`: the consumer stops, and the result or the exception goes on
  refine wp_kafka hpost.1 fun w' o hr hi hh r' l' s hexec => ?_
  cases hexec
  exact ⟨hi, hh, wp_ofExcept fun s' _ _ => ⟨hpost.1, fun _ _ => trivial⟩⟩

end Calls

/-! ## Runs -/

section Runs

variable (params : KafkaParams) (es : List (kafkaSys params).Event)

def kafkaRun : (kafkaSys params).Config := run (start {}) es

def observedKafka : ((kafkaSys params).observed (kafkaObserver params)).Config :=
  run (start ({}, []))
    (es.map (Event.observe (S := kafkaSys params) (kafkaObserver params)))

def processed : List ProcessedRecord := (observedKafka params es).sh.2

def deliveryRun : ((kafkaSys params).observed (deliveryObserver params)).Config :=
  run (start ({}, []))
    (es.map (Event.observe (S := kafkaSys params) (deliveryObserver params)))

def delivered : List ProcessedRecord := (deliveryRun params es).sh.2

lemma erase_deliveryRun : erase (deliveryRun params es) = kafkaRun params es :=
  erase_run (S := kafkaSys params) (O := deliveryObserver params)

variable {params}

lemma delivered_eq_processed (hcallback : ∀ t, (params.calls t).processCallback = true) :
    delivered params es = processed params es := by
  have hnote : noteDelivered params = noteProcessed params := by
    funext t h c r
    cases c with
    | getmany =>
      cases r with
      | ok => simp only [noteDelivered, hcallback, if_true, noteProcessed]
      | error => rfl
    | processCallback =>
      cases r with
      | ok | error => rfl
    | _ => rfl
  unfold delivered processed deliveryRun observedKafka deliveryObserver kafkaObserver
  rw [hnote]

lemma deliveryProtocol_holds (hreset : params.settings.autoOffsetReset = .earliest) :
    Holds (S := (kafkaSys params).observed (deliveryObserver params))
      (P := deliveryProtocol params) (Q := fun t => KafkaPost params t fun _ _ => True)
      (deliveryRun params es) := by
  refine sound_of_forall (fun _ _ _ _ _ => trivial) (fun e (w : KafkaView) hi => ?_)
    (Holds.start ?_ fun t => wp_consumeBatch hreset) _
  · exact ⟨⟨hi.1.send params.sha256 e, hi.2⟩, fun _ => extends_send w params.sha256 e⟩
  · refine ⟨⟨fun tp i e he => ?_, fun g tp n hn => ?_⟩, fun before r after h => ?_⟩
    · cases he
    · cases hn
    · exact absurd h (by simp)

/-- **At-least-once consumption.** Producers and calls run under any schedule, and callbacks raise
anywhere. After every schedule, a record whose offset is below the committed offset of a group has
been passed to a callback of the group that has returned. No event but a call of the group changes
its committed offsets. -/
theorem committed_at_least_once (hreset : params.settings.autoOffsetReset = .earliest)
    (hcallback : ∀ t, (params.calls t).processCallback = true) :
    (∀ g tp n, (kafkaRun params es).sh.committed g tp = some n →
      ∀ record ∈ (kafkaRun params es).sh.logs tp, record.offset < n →
        ⟨g, tp, record.offset, record.value⟩ ∈ processed params es) ∧
    ∀ e g, (∀ t o, e = .turn t o → params.group t ≠ g) →
      (step (kafkaRun params es) e).sh.committed g = (kafkaRun params es).sh.committed g := by
  have hh := deliveryProtocol_holds es hreset
  rw [← erase_deliveryRun, ← delivered_eq_processed es hcallback]
  refine ⟨fun g tp n hn record hmem hlt => ?_, fun e g hg => ?_⟩
  · obtain ⟨i, hi⟩ := List.getElem?_of_mem hmem
    have hoff : record.offset = i := hh.1.1.offsets tp i record hi
    obtain ⟨e, he, hdone⟩ := hh.1.1.committed g tp n hn i (hoff ▸ hlt)
    cases Option.some.inj (hi.symm.trans he)
    rw [hoff]
    exact hdone
  · cases e with
    | world => rfl
    | turn t o =>
      rcases ((deliveryRun params es).thr t).2.ended_or_awaits with hn | ⟨r, k, hp⟩
      · rw [step_ended (c := erase (deliveryRun params es)) hn]
      · rw [step_await (c := erase (deliveryRun params es)) (t := t) (r := r) (k := k) hp]
        have hgroup : ((deliveryRun params es).thr t).1.groupId = params.group t :=
          hh.good (o := o) (by rw [hp]; rfl) trivial
        refine exec_committed r o ?_
        change g ≠ ((deliveryRun params es).thr t).1.groupId
        rw [hgroup]
        exact (hg t o rfl).symm

end Runs

/-! ### A record that is refused -/

def sampleKafka : KafkaParams where
  sha256 _ := 0
  accepts data := data ≠ "void"
  calls _ := {}

def sampleKafkaEvents : List (kafkaSys sampleKafka).Event :=
  .world (.send "orders.events" "paid" none none 0) :: List.replicate 5 (.turn 0 {}) ++
    .world (.send "orders.events" "void" none none 0) :: List.replicate 5 (.turn 1 {})

/-- The callback of the second call raises: the offset 1 stays committed, and record 0 has been
processed. -/
theorem committed_at_least_once_sample :
    (kafkaRun sampleKafka sampleKafkaEvents).sh.committed "order-processing-group"
        ⟨"orders.events", 0⟩ = some 1 ∧
      ⟨"order-processing-group", ⟨"orders.events", 0⟩, 0, "paid"⟩ ∈
        processed sampleKafka sampleKafkaEvents := by
  have hcommitted : (kafkaRun sampleKafka sampleKafkaEvents).sh.committed "order-processing-group"
      ⟨"orders.events", 0⟩ = some 1 := by decide +kernel
  have hlog : (kafkaRun sampleKafka sampleKafkaEvents).sh.logs ⟨"orders.events", 0⟩ =
      [⟨0, none, "paid", 0⟩, ⟨1, none, "void", 0⟩] := by decide +kernel
  refine ⟨hcommitted, (committed_at_least_once sampleKafkaEvents rfl fun _ => rfl).1 _ _ _
    hcommitted ⟨0, none, "paid", 0⟩ ?_ (by decide)⟩
  rw [hlog]
  exact List.mem_cons_self

end CleanArch
