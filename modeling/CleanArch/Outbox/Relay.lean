import CleanArch.Ledger.Types
import Mathlib.Data.List.Sort

/-!
# The outbox relays

`OutboxRelayService` and `LedgerOutboxRelayService` (`app/services/outbox_relay_service.py`,
`app/services/ledger_outbox_relay_service.py`) over `SqlAlchemyOutboxRepository`
(`app/repositories/outbox_repository.py`). The two loops are one definition (`relayLoop`) with the
parameters of a service (`Relay`). What the broker answers is chosen per event (`Delivery`); the
database does not fail.
-/

namespace CleanArch

/-- What the relays read of a payload: its `partition_key`, and the text of `json.dumps`. -/
structure OutboxPayload where
  partitionKey : Option String := none
  json : String
  deriving DecidableEq

structure OutboxEventEntity where
  id : UUID
  eventType : String
  aggregateType : String
  aggregateId : String
  payload : OutboxPayload
  status : OutboxStatus := .pending
  retryCount : Nat := 0
  createdAt : Time
  publishedAt : Option Time := none
  deriving DecidableEq

/-! ## The repository -/

def getPendingEvents (batchSize : Nat) (rows : List OutboxEventEntity) : List OutboxEventEntity :=
  ((rows.filter fun e => e.status = .pending).insertionSort
    fun a b => a.createdAt ≤ b.createdAt).take batchSize

/-- What `mark_published` does to the row of the event. -/
def OutboxEventEntity.published (status : OutboxStatus) (now : Time) (e : OutboxEventEntity) :
    OutboxEventEntity :=
  { e with status := status, publishedAt := some now }

/-- What `mark_failed` does to the row of the event. -/
def OutboxEventEntity.failed (maxRetries : Nat) (e : OutboxEventEntity) : OutboxEventEntity :=
  { e with
    retryCount := e.retryCount + 1
    status := if maxRetries ≤ e.retryCount + 1 then .failed else e.status }

def updateRow (id : UUID) (f : OutboxEventEntity → OutboxEventEntity)
    (rows : List OutboxEventEntity) : List OutboxEventEntity :=
  rows.map fun e => if e.id = id then f e else e

def markPublished (id : UUID) (status : OutboxStatus) (now : Time)
    (rows : List OutboxEventEntity) : List OutboxEventEntity :=
  updateRow id (·.published status now) rows

/-- The default of `max_retries`. -/
def maxRetries : Nat := 3

def markFailed (id : UUID) (rows : List OutboxEventEntity) : List OutboxEventEntity :=
  updateRow id (·.failed maxRetries) rows

/-! ## The services -/

structure Message where
  topic : String
  key : Option String
  value : String
  deriving DecidableEq

structure Delivery where
  acked : Bool
  now : Time := 0

structure Relay where
  topic : OutboxEventEntity → String
  partitionKey : OutboxEventEntity → Option String
  status : OutboxStatus

def resolveTopic (event : OutboxEventEntity) : String :=
  if event.aggregateType = "order" then "orders.events"
  else if event.aggregateType = "payment" then "payments.events"
  else event.aggregateType ++ "s.events"

def outboxRelay : Relay where
  topic := resolveTopic
  partitionKey event := some event.aggregateId
  status := .published

/-- A key that is empty is sent as `None`. -/
def ledgerRelay : Relay where
  topic event := if mentions "." event.aggregateType then event.aggregateType
    else "ledger.transfers.v1"
  partitionKey event :=
    let key := if event.aggregateId ≠ "" then event.aggregateId
      else event.payload.partitionKey.getD ""
    if key ≠ "" then some key else none
  status := .processed

def Relay.message (relay : Relay) (event : OutboxEventEntity) : Message :=
  ⟨relay.topic event, relay.partitionKey event, event.payload.json⟩

structure Outbox where
  rows : List OutboxEventEntity
  log : List (UUID × Message) := []

structure Relayed extends Outbox where
  publishedCount : Nat := 0
  failedCount : Nat := 0

def relayEvent (relay : Relay) (broker : UUID → Delivery) (s : Relayed)
    (event : OutboxEventEntity) :
    Relayed :=
  if (broker event.id).acked then
    { s with
      log := s.log ++ [(event.id, relay.message event)]
      rows := markPublished event.id relay.status (broker event.id).now s.rows
      publishedCount := s.publishedCount + 1 }
  else
    { s with
      failedCount := s.failedCount + 1
      rows := markFailed event.id s.rows }

def relayLoop (relay : Relay) (broker : UUID → Delivery) (pendingEvents : List OutboxEventEntity)
    (s : Outbox) : Relayed :=
  pendingEvents.foldl (relayEvent relay broker) { s with }

/-- The dict that `poll_and_publish_pending_events` returns. -/
structure RelaySummary where
  status : String
  totalPolled : Nat
  publishedCount : Nat
  failedCount : Nat
  message : String
  deriving DecidableEq

def pollAndPublishPendingEvents (batchSize : Nat) (broker : UUID → Delivery) (s : Outbox) :
    RelaySummary × Outbox :=
  let pendingEvents := getPendingEvents batchSize s.rows
  if pendingEvents = [] then
    (⟨"IDLE", 0, 0, 0, "No pending outbox events found."⟩, s)
  else
    let r := relayLoop outboxRelay broker pendingEvents s
    let message := s!"Polled {pendingEvents.length} events: {r.publishedCount} published, " ++
      s!"{r.failedCount} failed."
    (⟨"COMPLETED", pendingEvents.length, r.publishedCount, r.failedCount, message⟩, r.toOutbox)

def publishPendingEvents (batchSize : Nat) (broker : UUID → Delivery) (s : Outbox) : Nat × Outbox :=
  let pendingEvents := getPendingEvents batchSize s.rows
  if pendingEvents = [] then (0, s)
  else
    let r := relayLoop ledgerRelay broker pendingEvents s
    (r.publishedCount, r.toOutbox)

/-! ## Sequential runs -/

inductive RelayService where
  | outbox
  | ledger
  deriving DecidableEq

def RelayService.relay : RelayService → Relay
  | .outbox => outboxRelay
  | .ledger => ledgerRelay

structure RelayRun where
  service : RelayService
  batchSize : Nat
  broker : UUID → Delivery

def Outbox.step (s : Outbox) (run : RelayRun) : Outbox :=
  match run.service with
  | .outbox => (pollAndPublishPendingEvents run.batchSize run.broker s).2
  | .ledger => (publishPendingEvents run.batchSize run.broker s).2

def Outbox.run (s : Outbox) (runs : List RelayRun) : Outbox := runs.foldl Outbox.step s

end CleanArch
