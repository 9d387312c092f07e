import CleanArch.Assoc.Ordered
import CleanArch.Async.Rely

/-!
# The in-memory Kafka log and its consumers

`MockAIOKafkaProducer` (`app/core/kafka.py`), `MockAIOKafkaConsumer` and `create_kafka_consumer`
(`app/core/kafka_consumer.py`), and `consume_batch` of `KafkaConsumerService`
(`app/services/kafka_consumer_service.py`). A consumer object is local to its call.

- **Values** are texts. What `json.loads` makes of one is a function of the text, so the text stands
  for the data; which of them the schema of their event type accepts is a parameter (`accepts`).
- **The order of the partitions** in a poll is that of a Python set: the world chooses it.
-/

namespace CleanArch

open Assoc Async Function

structure TopicPartition where
  topic : String
  partition : Nat
  deriving DecidableEq

structure LogEntry where
  offset : Nat
  key : Option String
  value : String
  timestamp : Int
  deriving DecidableEq

structure ConsumerRecord extends LogEntry where
  tp : TopicPartition
  deriving DecidableEq

structure Kafka where
  logs : TopicPartition → List LogEntry := fun _ => []
  committed : String → TopicPartition → Option Nat := fun _ _ => none

/-! ## The producer -/

def partitionsPerTopic : Nat := 3

def determinePartition (sha256 : String → Nat) : Option String → Nat
  | none => 0
  | some key => sha256 key % partitionsPerTopic

/-- `send_and_wait`, with the entry that it appends. -/
def Kafka.sendAndWait (sha256 : String → Nat) (topic value : String) (key : Option String)
    (partition : Option Nat) (timestamp : Int) (s : Kafka) : Kafka :=
  let tp : TopicPartition := ⟨topic, partition.getD (determinePartition sha256 key)⟩
  let currentOffset := (s.logs tp).length
  let partitionLog := s.logs tp ++ [⟨currentOffset, key, value, timestamp⟩]
  { s with logs := update s.logs tp partitionLog }

/-! ## The consumer -/

inductive OffsetReset where
  | earliest
  | latest
  deriving DecidableEq

structure KafkaSettings where
  consumerGroupId : String := "order-processing-group"
  autoOffsetReset : OffsetReset := .earliest
  maxPollRecords : Int := 50

/-- `MockAIOKafkaConsumer`, of one topic. -/
structure KafkaConsumer where
  topic : String
  groupId : String
  autoOffsetReset : OffsetReset
  maxPollRecords : Int
  assigned : List TopicPartition := []
  positions : List (TopicPartition × Nat) := []
  isStarted : Bool := false

/-- `a or b` of two numbers. -/
def pyOr (a b : Int) : Int := if a = 0 then b else a

/-- The arguments of `consume_batch`. -/
structure ConsumeCall where
  topic : String := "orders.events"
  groupId : String := "order-processing-group"
  batchSize : Int := 10
  processCallback : Bool := true

def createKafkaConsumer (settings : KafkaSettings) (call : ConsumeCall) : KafkaConsumer where
  topic := call.topic
  groupId := if call.groupId = "" then settings.consumerGroupId else call.groupId
  autoOffsetReset := settings.autoOffsetReset
  maxPollRecords := pyOr call.batchSize settings.maxPollRecords

namespace KafkaConsumer

/-- Where `start` puts a partition. -/
def startPosition (s : Kafka) (consumer : KafkaConsumer) (tp : TopicPartition) : Nat :=
  match s.committed consumer.groupId tp with
  | some offset => offset
  | none =>
    match consumer.autoOffsetReset with
    | .earliest => 0
    | .latest => (s.logs tp).length

def start (s : Kafka) (consumer : KafkaConsumer) : KafkaConsumer :=
  let assigned := (List.range partitionsPerTopic).map (TopicPartition.mk consumer.topic)
  { consumer with
    isStarted := true
    assigned := assigned
    positions := assigned.map fun tp => (tp, consumer.startPosition s tp) }

def stop (consumer : KafkaConsumer) : KafkaConsumer := { consumer with isStarted := false }

def position (consumer : KafkaConsumer) (tp : TopicPartition) : Nat :=
  (find consumer.positions tp).getD 0

/-- The state of the loop of `getmany`. -/
structure Fetched where
  result : List (TopicPartition × List ConsumerRecord) := []
  totalFetched : Nat := 0
  positions : List (TopicPartition × Nat)

/-- The records that the inner loop reads: from the position, as many as the limit allows. -/
def readFrom (s : Kafka) (tp : TopicPartition) (currentPos count : Nat) : List ConsumerRecord :=
  (((s.logs tp).drop currentPos).take count).map fun entry => ⟨entry, tp⟩

/-- The loop of `getmany` over the active partitions. -/
def fetch (s : Kafka) (limit : Int) : List TopicPartition → Fetched → Fetched
  | [], f => f
  | tp :: tps, f =>
    if limit ≤ f.totalFetched then f
    else
      let currentPos := (find f.positions tp).getD 0
      let records := readFrom s tp currentPos (limit - f.totalFetched).toNat
      fetch s limit tps
        { result := if records = [] then f.result else f.result ++ [(tp, records)]
          totalFetched := f.totalFetched + records.length
          positions := set f.positions tp (currentPos + records.length) }

/-- `getmany`; `order` is the order of the set of assigned partitions. -/
def getmany (s : Kafka) (order : List TopicPartition) (maxRecords : Int)
    (consumer : KafkaConsumer) :
    List (TopicPartition × List ConsumerRecord) × KafkaConsumer :=
  let activePartitions := if order.isPerm consumer.assigned then order else consumer.assigned
  let limit := min (pyOr maxRecords consumer.maxPollRecords) consumer.maxPollRecords
  let fetched := fetch s limit activePartitions { positions := consumer.positions }
  (fetched.result, { consumer with positions := fetched.positions })

end KafkaConsumer

/-- The loop of `commit` over the offsets of a group. -/
def commitAll (groupCommits : TopicPartition → Option Nat) (offsets : List (TopicPartition × Nat)) :
    TopicPartition → Option Nat :=
  offsets.foldl (fun commits p => update commits p.1 (some p.2)) groupCommits

/-- `commit` of the given offsets. -/
def Kafka.commit (group : String) (offsets : List (TopicPartition × Nat)) (s : Kafka) : Kafka :=
  { s with committed :=
      update s.committed group (commitAll (s.committed group) offsets) }

/-! ## Requests -/

inductive KafkaError where
  | runtimeError (message : String)
  | validationError
  | callbackError
  deriving DecidableEq

structure KafkaAnswer where
  order : List TopicPartition := []
  raises : Bool := false

inductive KafkaCmd where
  | start
  | getmany (maxRecords : Int)
  /-- `process_callback(data)`, with the record that the data is from. -/
  | processCallback (record : ConsumerRecord) (data : String)
  | commit (offsets : List (TopicPartition × Nat))
  | stop

@[reducible] def KafkaCmd.Res : KafkaCmd → Type
  | .getmany _ => List (TopicPartition × List ConsumerRecord)
  | _ => Unit

def notStarted : KafkaError :=
  .runtimeError "MockAIOKafkaConsumer is not started. Call start() first."

def KafkaCmd.exec (o : KafkaAnswer) (l : KafkaConsumer) (s : Kafka) :
    (c : KafkaCmd) → Except KafkaError c.Res × KafkaConsumer × Kafka
  | .start => (.ok (), l.start s, s)
  | .getmany maxRecords =>
    if l.isStarted then
      (.ok (l.getmany s o.order maxRecords).1, (l.getmany s o.order maxRecords).2, s)
    else (.error notStarted, l, s)
  | .processCallback .. => (if o.raises then .error .callbackError else .ok (), l, s)
  | .commit offsets =>
    if l.isStarted then (.ok (), l, s.commit l.groupId offsets) else (.error notStarted, l, s)
  | .stop => (.ok (), l.stop, s)

@[reducible] def kafkaMachine : Machine where
  Cmd := KafkaCmd
  Res := KafkaCmd.Res
  Err := KafkaError
  Loc := KafkaConsumer
  Sh := Kafka
  Out := KafkaAnswer
  exec _ c o l s := c.exec o l s

abbrev KafkaProg := Prog KafkaCmd KafkaCmd.Res KafkaError

def kafka (c : KafkaCmd) : KafkaProg c.Res := Prog.call c

/-! ## The service -/

structure Consumed where
  processedEvents : List String := []
  offsetsToCommit : List (TopicPartition × Nat) := []
  committedOffsetsMap : List (Nat × Nat) := []

structure KafkaPollBatchResponse where
  topic : String
  groupId : String
  recordsProcessed : Nat
  committedOffsets : List (Nat × Nat)
  events : List String
  message : String
  deriving DecidableEq

section Service

variable (accepts : String → Bool) (call : ConsumeCall)

def processRecord (tp : TopicPartition) (record : ConsumerRecord) (acc : Consumed) :
    KafkaProg Consumed := do
  let data := record.value
  Prog.raiseIf (accepts data = false) .validationError
  if call.processCallback then
    kafka (.processCallback record data)
  let nextOffset := record.offset + 1
  return {
    processedEvents := acc.processedEvents ++ [data]
    offsetsToCommit := set acc.offsetsToCommit tp nextOffset
    committedOffsetsMap := set acc.committedOffsetsMap tp.partition nextOffset }

def processRecords (tp : TopicPartition) : List ConsumerRecord → Consumed → KafkaProg Consumed
  | [], acc => return acc
  | record :: records, acc => do
    let acc ← processRecord accepts call tp record acc
    processRecords tp records acc

def processPartitions : List (TopicPartition × List ConsumerRecord) → Consumed → KafkaProg Consumed
  | [], acc => return acc
  | (tp, records) :: rest, acc => do
    let acc ← processRecords accepts call tp records acc
    processPartitions rest acc

/-- The `try` block of `consume_batch`. -/
def pollBatch : KafkaProg KafkaPollBatchResponse := do
  let recordMap ← kafka (.getmany call.batchSize)
  let acc ← processPartitions accepts call recordMap {}
  if acc.offsetsToCommit ≠ [] then
    kafka (.commit acc.offsetsToCommit)
  let count := acc.processedEvents.length
  let message := if acc.processedEvents = [] then "No new records available in topic"
    else s!"Successfully processed {count} records and committed offsets"
  return ⟨call.topic, call.groupId, count, acc.committedOffsetsMap, acc.processedEvents, message⟩

def consumeBatch : KafkaProg KafkaPollBatchResponse := do
  kafka .start
  (pollBatch accepts call).ensure (kafka .stop)

end Service

/-! ## Producers and consumers -/

inductive KafkaEnv where
  | send (topic value : String) (key : Option String) (partition : Option Nat) (timestamp : Int)

def KafkaEnv.exec (sha256 : String → Nat) (s : Kafka) : KafkaEnv → Kafka
  | .send topic value key partition timestamp =>
    s.sendAndWait sha256 topic value key partition timestamp

structure KafkaParams where
  settings : KafkaSettings := {}
  sha256 : String → Nat
  accepts : String → Bool
  calls : Tid → ConsumeCall

@[reducible] def kafkaSys (params : KafkaParams) : Sys where
  toMachine := kafkaMachine
  Env := KafkaEnv
  env e s := e.exec params.sha256 s
  A := KafkaPollBatchResponse
  prog t := consumeBatch params.accepts (params.calls t)
  loc t := createKafkaConsumer params.settings (params.calls t)

end CleanArch
