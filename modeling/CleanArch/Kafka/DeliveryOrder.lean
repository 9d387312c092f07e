import CleanArch.Kafka.AtLeastOnce
import Mathlib.Data.List.Induction

/-!
# Delivery order per key

Messages with one key go to one partition, and a group processes the records of a partition in the
order of their offsets: each record for the first time after all those below it (`InOrder`). This
needs consumers that start at the committed offset or at the beginning. With `latest`, the first
calls of a group start at the end of the log.
-/

namespace CleanArch

open Async List

/-! ## Messages -/

def KafkaEnv.tp (sha256 : String → Nat) : KafkaEnv → TopicPartition
  | .send topic _ key partition _ => ⟨topic, partition.getD (determinePartition sha256 key)⟩

def KafkaEnv.entry (offset : Nat) : KafkaEnv → LogEntry
  | .send _ value key _ timestamp => ⟨offset, key, value, timestamp⟩

def KafkaEnv.keyed : KafkaEnv → Option (String × String)
  | .send topic _ (some key) none _ => some (topic, key)
  | _ => none

lemma KafkaEnv.tp_of_keyed {m : KafkaEnv}
    (h : m.keyed = some (topic, key)) : m.tp sha256 = ⟨topic, sha256 key % partitionsPerTopic⟩ := by
  obtain ⟨topic', value, key', partition, timestamp⟩ := m
  cases key' with
  | none => cases h
  | some =>
    cases partition with
    | some => cases h
    | none =>
      cases h
      rfl

def sentTo (params : KafkaParams) (tp : TopicPartition) (msgs : List KafkaEnv) : List KafkaEnv :=
  msgs.filter fun m => m.tp params.sha256 = tp

/-- The partition of message `i`, and its offset: how many messages have gone there before. -/
def place (params : KafkaParams) (msgs : List KafkaEnv) (i : Nat) (m : KafkaEnv) :
    TopicPartition × Nat :=
  (m.tp params.sha256, (sentTo params (m.tp params.sha256) (msgs.take i)).length)

lemma sentTo_concat : sentTo params tp (msgs ++ [m]) =
    if m.tp params.sha256 = tp then sentTo params tp msgs ++ [m] else sentTo params tp msgs := by
  unfold sentTo
  split
  all_goals next htp => simp [htp]

lemma sentTo_place (hm : msgs[i]? = some m) :
    (sentTo params (place params msgs i m).1 msgs)[(place params msgs i m).2]? = some m := by
  have hsplit : msgs = msgs.take i ++ m :: msgs.drop (i + 1) := by
    obtain ⟨hi, rfl⟩ := List.getElem?_eq_some_iff.mp hm
    rw [List.getElem_cons_drop hi, List.take_append_drop]
  have hsent : sentTo params (m.tp params.sha256) msgs =
      sentTo params (m.tp params.sha256) (msgs.take i) ++
        m :: sentTo params (m.tp params.sha256) (msgs.drop (i + 1)) := by
    conv_lhs => rw [hsplit]
    simp [sentTo]
  simp only [place]
  rw [hsent, List.getElem?_append_right (Nat.le_refl _), Nat.sub_self, List.getElem?_cons_zero]

lemma place_lt (hij : i < j) (hm : msgs[i]? = some m)
    (htp : m.tp params.sha256 = m'.tp params.sha256) :
    (place params msgs i m).2 < (place params msgs j m').2 := by
  have hpre : msgs.take i ++ [m] <+: msgs.take j := by
    obtain ⟨hi, rfl⟩ := List.getElem?_eq_some_iff.mp hm
    rw [List.take_append_getElem hi]
    exact take_prefix_take_left hij
  have hle := (hpre.sublist.filter fun x => x.tp params.sha256 = m.tp params.sha256).length_le
  simp only [place, sentTo, ← htp]
  exact Nat.lt_of_succ_le (by simpa using hle)

section Runs

variable {params : KafkaParams}

def sent : List (kafkaSys params).Event → List KafkaEnv
  | [] => []
  | .world m :: es => m :: sent es
  | .turn _ _ :: es => sent es

lemma sent_append : sent (es ++ fs) = sent es ++ sent fs := by
  induction es with
  | nil => rfl
  | cons e es ih =>
    cases e with
    | world | turn => simp only [cons_append, sent, ih]

def firstDelivery (g : String) (p : TopicPartition × Nat) (h : List ProcessedRecord) : Option Nat :=
  h.findIdx? fun r => r.group = g ∧ r.tp = p.1 ∧ r.offset = p.2

structure SendOrder (params : KafkaParams) (es : List (kafkaSys params).Event) : Prop where
  /-- The offsets of a partition are 0, 1, 2, … in the order of sending. -/
  offsets : ∀ tp, (kafkaRun params es).sh.logs tp =
    (sentTo params tp (sent es)).mapIdx fun i m => m.entry i
  placed : ∀ i m, (sent es)[i]? = some m →
    ((kafkaRun params es).sh.logs (place params (sent es) i m).1)[(place params (sent es) i m).2]? =
      some (m.entry (place params (sent es) i m).2)

/-- Of two messages with one key, a group that processes both processes the earlier one first. -/
def KeyOrder (params : KafkaParams) (es : List (kafkaSys params).Event) : Prop :=
  ∀ g topic key i j m m', i < j → (sent es)[i]? = some m → (sent es)[j]? = some m' →
    m.keyed = some (topic, key) → m'.keyed = some (topic, key) →
    ∀ n n', firstDelivery g (place params (sent es) i m) (delivered params es) = some n →
      firstDelivery g (place params (sent es) j m') (delivered params es) = some n' → n < n'

/-! ## Offsets -/

lemma step_logs_turn (c : (kafkaSys params).Config) (t : Tid) :
    (Sys.step c (.turn t o)).sh.logs = c.sh.logs := by
  rcases (c.thr t).2.ended_or_awaits with hn | ⟨r, k, hp⟩
  · rw [Sys.step_ended hn]
  · rw [Sys.step_await hp]
    exact KafkaCmd.exec_logs r o _ _

lemma KafkaEnv.exec_logs (sha256 : String → Nat) (m : KafkaEnv) (s : Kafka)
    (tp : TopicPartition) : (m.exec sha256 s).logs tp =
      if m.tp sha256 = tp then s.logs tp ++ [m.entry (s.logs tp).length] else s.logs tp := by
  obtain ⟨topic, value, key, partition, timestamp⟩ := m
  simp only [KafkaEnv.exec, Kafka.sendAndWait, Function.update_apply, KafkaEnv.tp, eq_comm]
  split
  · next htp =>
    subst htp
    rfl
  · rfl

variable (es : List (kafkaSys params).Event)

lemma kafkaRun_snoc : kafkaRun params (es ++ [e]) = Sys.step (kafkaRun params es) e := by
  simp only [kafkaRun, Sys.run, foldl_append, foldl_cons, foldl_nil]

lemma logs_eq (tp : TopicPartition) :
    (kafkaRun params es).sh.logs tp = (sentTo params tp (sent es)).mapIdx fun i m => m.entry i := by
  induction es using reverseRecOn with
  | nil => rfl
  | append_singleton es e ih =>
    rw [kafkaRun_snoc, sent_append]
    cases e with
    | turn =>
      rw [step_logs_turn, ih]
      simp only [sent, append_nil]
    | world m =>
      show (m.exec params.sha256 (kafkaRun params es).sh).logs tp = _
      rw [KafkaEnv.exec_logs, ih, length_mapIdx, sent, sent, sentTo_concat]
      split
      · rw [mapIdx_concat]
      · rfl

/-! ## Order -/

lemma InOrder.firstDelivery_lt (hh : InOrder h) (hij : i < j)
    (hi : firstDelivery g (tp, i) h = some n) (hj : firstDelivery g (tp, j) h = some n') :
    n < n' := by
  obtain ⟨hlt, hr, -⟩ := findIdx?_eq_some_iff_getElem.mp hj
  have hsplit : h = h.take n' ++ h[n'] :: h.drop (n' + 1) := by
    rw [List.getElem_cons_drop hlt, List.take_append_drop]
  obtain ⟨hgroup, htp, hoff⟩ := of_decide_eq_true hr
  obtain ⟨x, hx, hxgroup, hxtp, hxoff⟩ := hh _ _ _ hsplit i (hoff ▸ hij)
  -- the record below is in the history before this one, so its first processing is too
  have hfound : ∃ x, x ∈ h.take n' ∧ decide (x.group = g ∧ x.tp = tp ∧ x.offset = i) = true := by
    exact ⟨x, hx, decide_eq_true ⟨hxgroup.trans hgroup, hxtp.trans htp, hxoff⟩⟩
  have hfirst := ( take_prefix n' h).findIdx?_eq_some
    (findIdx?_eq_some_of_exists hfound)
  have hbefore := findIdx_lt_length_of_exists hfound
  have hlength := length_take_le n' h
  have hn : _ = n := Option.some.inj (hfirst.symm.trans hi)
  omega

lemma sendOrder : SendOrder params es where
  offsets := logs_eq es
  placed i m hm := by
    rw [logs_eq, List.getElem?_mapIdx, sentTo_place hm]
    rfl

lemma keyOrder_of_earliest (hreset : params.settings.autoOffsetReset = .earliest) :
    KeyOrder params es := by
  intro g topic key i j m m' hij hm _ hkey hkey' n n' hn hn'
  have hh := (deliveryProtocol_holds es hreset).1.2
  have htp : m.tp params.sha256 = m'.tp params.sha256 := by
    rw [KafkaEnv.tp_of_keyed hkey, KafkaEnv.tp_of_keyed hkey']
  have hplace : (m.tp params.sha256, (place params (sent es) j m').2) =
      place params (sent es) j m' := Prod.ext htp rfl
  rw [← hplace] at hn'
  exact hh.firstDelivery_lt (place_lt hij hm htp) hn hn'

/-- **Delivery order per key.** Producers and calls run under any schedule, with or without a
callback, and callbacks raise anywhere. The offsets of each partition are those of sending, and with
`earliest` messages with one key are processed in this order. -/
theorem per_key_order (params : KafkaParams) (es : List (kafkaSys params).Event) :
    SendOrder params es ∧ (params.settings.autoOffsetReset = .earliest → KeyOrder params es) :=
  ⟨sendOrder es, keyOrder_of_earliest es⟩

end Runs

/-! ### Two messages of one key -/

/-- Call 0 starts, a message is sent, call 1 starts, and another is sent. Call 1 runs to its end
before call 0 polls. -/
def twoMessages (params : KafkaParams) : List (kafkaSys params).Event :=
  [.turn 0 {}, .world (.send "orders.events" "created" (some "order-1") none 0), .turn 1 {},
    .world (.send "orders.events" "paid" (some "order-1") none 1)] ++
  List.replicate 5 (.turn 1 {}) ++ List.replicate 5 (.turn 0 {})

theorem per_key_order_sample : KeyOrder sampleKafka (twoMessages sampleKafka) ∧
      (delivered sampleKafka (twoMessages sampleKafka)).map (·.data) =
        ["created", "paid", "created", "paid"] :=
  ⟨(per_key_order sampleKafka (twoMessages sampleKafka)).2 rfl, by decide +kernel⟩

/-- The same calls, with `latest`. -/
def latestKafka : KafkaParams where
  settings := { autoOffsetReset := .latest }
  sha256 _ := 0
  accepts _ := true
  calls _ := {}

/-- Call 1 starts at the second message, and call 0 at the first. -/
theorem latest_out_of_order : ¬ KeyOrder latestKafka (twoMessages latestKafka) := by
  intro h
  have hlt := h "order-processing-group" "orders.events" "order-1" 0 1 _ _ (by decide) rfl
    rfl rfl rfl 1 0 (by decide +kernel) (by decide +kernel)
  omega

end CleanArch
