import CleanArch.Async.Rely
import CleanArch.Ledger.Types

/-!
# The dead letter queue

`DLQService` (`app/services/dlq_service.py`); purging the store is left out.

- **Requests.** The handler, the acknowledgement, the republish function and the sleep between two
  attempts are awaited; the first three may raise. A call may be interrupted before and after each
  access to the store.
- **Identity.** The store has references to envelope objects. The id of the call stands for the
  identity of the object (`DLQEnvelope.builtBy`).
-/

namespace CleanArch

open Async

inductive DlqError where
  /-- An exception of the handler, the acknowledgement or the republish function: its text and its
  traceback. -/
  | exception (message traceback : String)
  | validationError
  deriving DecidableEq

def DlqError.message : DlqError → String
  | .exception message _ => message
  | .validationError => "validation error"

def DlqError.traceback : DlqError → String
  | .exception _ traceback => traceback
  | .validationError => ""

structure DLQEnvelope where
  messageId : String
  originalTopicOrQueue : String
  payload : String
  errorMessage : String
  errorTraceback : String
  retryCount : Int
  failedAt : Time
  dlqDestination : String
  builtBy : Tid
  deriving DecidableEq

def defaultDlqDestination : String := "orders.dlq"

/-! ## Requests -/

structure DlqAnswer where
  raises : Option DlqError := none
  text : String := ""
  now : Time := 0

inductive DlqCmd where
  /-- `handler_func(payload)`. -/
  | handler (payload : String)
  /-- `ack_func()`. -/
  | ack
  | sleep (delay : Time)
  /-- `uuid.uuid4().hex[:12]`. -/
  | uuid
  /-- `datetime.now(UTC)`. -/
  | now
  | routeToDlq (envelope : DLQEnvelope)
  /-- The loop of `redrive_messages` over the store. -/
  | split (queueOrTopic : Option String) (limit : Int)
  /-- `republish_func(env.original_topic_or_queue, env.payload)`. -/
  | republish (envelope : DLQEnvelope)
  /-- `_quarantine_store = remaining`. -/
  | replace (remaining : List DLQEnvelope)

/-- The two lists of `redrive_messages`. -/
structure Redrive where
  candidates : List DLQEnvelope := []
  remaining : List DLQEnvelope := []

@[reducible] def DlqCmd.Res : DlqCmd → Type
  | .handler _ => String
  | .uuid => String
  | .now => Time
  | .split .. => Redrive
  | _ => Unit

def Redrive.sort (queueOrTopic : Option String) (limit : Int) (r : Redrive) (env : DLQEnvelope) :
    Redrive :=
  if (queueOrTopic = none ∨ queueOrTopic = some env.originalTopicOrQueue) ∧
      (r.candidates.length : Int) < limit then
    { r with candidates := r.candidates ++ [env] }
  else
    { r with remaining := r.remaining ++ [env] }

/-- `candidates` and `remaining` of a store. -/
def splitStore (queueOrTopic : Option String) (limit : Int) (store : List DLQEnvelope) : Redrive :=
  store.foldl (Redrive.sort queueOrTopic limit) {}

def DlqCmd.exec (o : DlqAnswer) (l : Redrive) (store : List DLQEnvelope) :
    (c : DlqCmd) → Except DlqError c.Res × Redrive × List DLQEnvelope
  | .handler _ => (o.raises.elim (.ok o.text) .error, l, store)
  | .ack => (o.raises.elim (.ok ()) .error, l, store)
  | .sleep _ => (.ok (), l, store)
  | .uuid => (.ok o.text, l, store)
  | .now => (.ok o.now, l, store)
  | .routeToDlq envelope => (.ok (), l, store ++ [envelope])
  | .split queueOrTopic limit =>
    (.ok (splitStore queueOrTopic limit store), splitStore queueOrTopic limit store, store)
  | .republish _ => (o.raises.elim (.ok ()) .error, l, store)
  | .replace remaining => (.ok (), l, remaining)

@[reducible] def dlqMachine : Machine where
  Cmd := DlqCmd
  Res := DlqCmd.Res
  Err := DlqError
  Loc := Redrive
  Sh := List DLQEnvelope
  Out := DlqAnswer
  exec _ c o l s := c.exec o l s

abbrev DlqProg := Prog DlqCmd DlqCmd.Res DlqError

def dlq (c : DlqCmd) : DlqProg c.Res := Prog.call c

/-! ## `process_with_dlq` -/

structure ProcessArgs where
  destination : String
  payload : String
  /-- Whether an `ack_func` is given. -/
  ackFunc : Bool := false
  messageId : Option String := none
  baseDelay : Time := 1
  maxRetries : Int := 3

inductive DlqOutcome where
  | processed (result : String)
  | quarantined (envelope : DLQEnvelope)
  | redriven (count : Nat)
  deriving DecidableEq

/-- The `try` block of an attempt. -/
def tryHandler (args : ProcessArgs) : DlqProg String := do
  let result ← dlq (.handler args.payload)
  if args.ackFunc then
    dlq .ack
  return result

def attempts (args : ProcessArgs) : (left attempt : Nat) → Option DlqError →
    DlqProg (Except (Option DlqError) String)
  | 0, _, lastExc => return .error lastExc
  | left + 1, attempt, _ => do
    match ← (tryHandler args).attempt with
    | .ok result => return .ok result
    | .error exc =>
      let currentAttempt := attempt + 1
      let delay := args.baseDelay * 2 ^ attempt
      if (currentAttempt : Int) < args.maxRetries ∧ 0 < delay then
        dlq (.sleep delay)
      attempts args left (attempt + 1) (some exc)

/-- `message_id or f"msg_{uuid}"`. -/
def chooseMessageId (args : ProcessArgs) : DlqProg String := do
  match args.messageId with
  | some id => if id ≠ "" then return id else return "msg_" ++ (← dlq .uuid)
  | none => return "msg_" ++ (← dlq .uuid)

def quarantine (t : Tid) (args : ProcessArgs) (lastExc : Option DlqError) : DlqProg DlqOutcome := do
  let msgId ← chooseMessageId args
  Prog.raiseIf (args.maxRetries < 0) .validationError
  let failedAt ← dlq .now
  let envelope : DLQEnvelope :=
    { messageId := msgId
      originalTopicOrQueue := args.destination
      payload := args.payload
      errorMessage := (lastExc.map DlqError.message).getD "Unknown error"
      errorTraceback := (lastExc.map DlqError.traceback).getD ""
      retryCount := args.maxRetries
      failedAt := failedAt
      dlqDestination := defaultDlqDestination
      builtBy := t }
  dlq (.routeToDlq envelope)
  if args.ackFunc then
    dlq .ack
  return .quarantined envelope

def processWithDlq (t : Tid) (args : ProcessArgs) : DlqProg DlqOutcome := do
  match ← attempts args args.maxRetries.toNat 0 none with
  | .ok result => return .processed result
  | .error lastExc => quarantine t args lastExc

/-! ## `redrive_messages` -/

structure RedriveArgs where
  queueOrTopic : Option String := none
  limit : Int := 100
  /-- Whether a `republish_func` is given. -/
  republishFunc : Bool := false

def republishAll (args : RedriveArgs) : List DLQEnvelope → Nat → DlqProg Nat
  | [], redrivenCount => return redrivenCount
  | env :: candidates, redrivenCount => do
    if args.republishFunc then
      dlq (.republish env)
    republishAll args candidates (redrivenCount + 1)

def redriveMessages (args : RedriveArgs) : DlqProg DlqOutcome := do
  let lists ← dlq (.split args.queueOrTopic args.limit)
  let redrivenCount ← republishAll args lists.candidates 0
  dlq (.replace lists.remaining)
  return .redriven redrivenCount

/-! ## All calls -/

inductive DlqCall where
  | process (args : ProcessArgs)
  | redrive (args : RedriveArgs)

def DlqCall.prog (t : Tid) : DlqCall → DlqProg DlqOutcome
  | .process args => processWithDlq t args
  | .redrive args => redriveMessages args

def DlqCall.republishes : DlqCall → Bool
  | .process _ => false
  | .redrive args => args.republishFunc

@[reducible] def dlqSys (calls : Tid → DlqCall) : Sys where
  toMachine := dlqMachine
  Env := Empty
  env e _ := e.elim
  A := DlqOutcome
  prog t := (calls t).prog t
  loc _ := {}

end CleanArch
