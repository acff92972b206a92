/-
  Kds.Server.StepEdge

  One edge of a pipeline: the stage that seals batches (`src/server/remote_step_service.cpp`), its
  consumer (a further stage, or the session's read of `src/server/session_step_client.cpp`), and
  the transport between their two cores.

  The edge starts when both ends are open: a consumer exists before the open that starts its
  upstream is sent.  Batches, the end of the edge and credits are tasks of their own in the ready
  queues of the two cores, beside messages of other edges and services that share the rings.
  Stages are coroutines, so what they do between two parks is a step that may come at any moment.
  When both ends are placed on one core its queue is an interleaving of the two queues here.

  A stage that reports an error and a cancel are not part of this model.
-/

import Kds.Sched.SendRetry

namespace Kds.Server

open Sched

-- Messages and credit

/-- A sealed batch: `StepBatchHeader` less the tag, and the encoded rows behind it. -/
structure StepBatch where
  seq : Nat
  rowCount : Nat
  rows : List UInt8
  deriving DecidableEq

/-- The messages that travel between the edge's two cores. -/
inductive RingMessage where
  | stepBatch (batch : StepBatch)
  | stepEof
  | stepCredit (credits : Nat)
  /-- A message of another edge or service, of some payload size. -/
  | other (bytes : Nat)
  deriving DecidableEq

/-- The payload's size: a 24-byte header and the rows, a bare tag, a tag with a count. -/
def RingMessage.payloadSize : RingMessage → Nat
  | .stepBatch batch => 24 + batch.rows.length
  | .stepEof => 16
  | .stepCredit _ => 24
  | .other bytes => bytes

/-- `kInitialCreditsPerEdge`. -/
def initialCreditsPerEdge : Nat := 4

/-- `EdgeCredit`, held by the upstream end. -/
structure EdgeCredit where
  available : Nat := initialCreditsPerEdge
  ceiling : Nat := initialCreditsPerEdge
  deriving DecidableEq

def EdgeCredit.canSend (credit : EdgeCredit) : Bool := 0 < credit.available

/-- `EdgeCredit::ConsumeOnSend`. -/
def EdgeCredit.consumeOnSend (credit : EdgeCredit) : StatusOr EdgeCredit :=
  if credit.available = 0 then
    .error (.resourceExhausted "no batch credit on this edge; wait for a grant")
  else .ok { credit with available := credit.available - 1 }

/-- `EdgeCredit::Grant`. -/
def EdgeCredit.grant (credit : EdgeCredit) (credits : Nat) : StatusOr EdgeCredit :=
  if credit.ceiling < credit.available + credits then
    .error (.invalidArgument s!"credit grant exceeds the edge's preallocated {credit.ceiling}")
  else .ok { credit with available := credit.available + credits }

-- The two ends

/-- The producing stage's entry (`RemoteStepServer::Pipeline`), as far as its output edge goes. -/
structure Pipeline where
  credit : EdgeCredit := {}
  batches : List StepBatch := []
  seq : Nat := 0
  producing : Bool := true
  deriving DecidableEq

/-- The input edge of a consuming stage (`Pipeline::InputEdge`), with the batch its coroutine is
    joining and, as history, those it is done with. -/
structure InputEdge where
  input : List StepBatch := []
  inputEof : Bool := false
  current : Option StepBatch := none
  consumed : List StepBatch := []
  deriving DecidableEq

/-- A session's read (`SessionStepClient::RemoteRead`). -/
structure RemoteRead where
  rows : Nat := 0
  batches : List StepBatch := []
  done : Bool := false
  deriving DecidableEq

/-- What stands at the edge's far end. -/
inductive Consumer where
  | stage (edge : InputEdge)
  | read (remote : RemoteRead)
  deriving DecidableEq

/-- The batches that have reached the consumer, in arrival order. -/
def Consumer.received : Consumer → List StepBatch
  | .stage edge => edge.consumed ++ edge.current.toList ++ edge.input
  | .read remote => remote.batches

/-- The consumer has been told that nothing more will come. -/
def Consumer.eofSeen : Consumer → Bool
  | .stage edge => edge.inputEof
  | .read remote => remote.done

/-- The consumer's end-of-input state: `RunConsumer` finds its queue empty after the end, or the
    session's read is done. -/
def Consumer.endOfInput : Consumer → Bool
  | .stage edge => edge.inputEof && edge.input.isEmpty && edge.current.isNone
  | .read remote => remote.done

/-- The edge: the ready queues of the two cores, the rings between them, and the state of the two
    ends (`none` once an end has been torn down).  The last four fields are history: what was
    sealed, and how many batches were sent, credits accepted and credits given back. -/
structure EdgeState where
  producerReady : List (ReadyTask RingMessage) := []
  consumerReady : List (ReadyTask RingMessage) := []
  dataRing : SpscRing RingMessage := .create
  creditRing : SpscRing RingMessage := .create
  pipeline : Option Pipeline := some {}
  consumer : Option Consumer
  sealedBatches : List StepBatch := []
  sent : Nat := 0
  granted : Nat := 0
  drained : Nat := 0

/-- An edge into a consuming stage, and one into a session's read, just opened. -/
def EdgeState.intoStage : EdgeState := { consumer := some (.stage {}) }

def EdgeState.intoRead : EdgeState := { consumer := some (.read {}) }

-- The producing stage

/-- What `RemoteStepServer::Drain`'s loop leaves: the credit, the batches still unsent, and those
    it handed to the transport. -/
structure Drained where
  credit : EdgeCredit
  left : List StepBatch
  out : List StepBatch

/-- The loop of `RemoteStepServer::Drain`. -/
def drainLoop : EdgeCredit → List StepBatch → Drained
  | credit, [] => { credit := credit, left := [], out := [] }
  | credit, batch :: rest =>
    if credit.canSend then
      match credit.consumeOnSend with
      | .error _ => { credit := credit, left := batch :: rest, out := [] }
      | .ok credit' =>
        let later := drainLoop credit' rest
        { later with out := batch :: later.out }
    else { credit := credit, left := batch :: rest, out := [] }

/-- `RemoteStepServer::Drain`: what the credit covers is sent; once nothing is left and the stage
    has finished, the entry is erased and the end follows. -/
def drain (s : EdgeState) (pipe : Pipeline) : EdgeState :=
  let d := drainLoop pipe.credit pipe.batches
  let ready := s.producerReady ++ d.out.map fun batch => .sendRetry (.stepBatch batch)
  if pipe.producing || !d.left.isEmpty then
    { s with
      producerReady := ready, sent := s.sent + d.out.length
      pipeline := some { pipe with credit := d.credit, batches := d.left } }
  else
    { s with
      producerReady := ready ++ [.sendRetry .stepEof], sent := s.sent + d.out.length
      pipeline := none }

/-- `SealAndDrain` from the sink of a running stage. -/
def sealAndDrain (s : EdgeState) (rows : List UInt8) (rowCount : Nat) : Option EdgeState :=
  match s.pipeline with
  | none => none
  | some pipe =>
    if pipe.producing then
      let batch : StepBatch := { seq := pipe.seq, rowCount := rowCount, rows := rows }
      some (drain { s with sealedBatches := s.sealedBatches ++ [batch] }
        { pipe with seq := (pipe.seq + 1) % 2 ^ 32, batches := pipe.batches ++ [batch] })
    else none

/-- The end of `RunProducer` and of `RunConsumer`. -/
def finishProducing (s : EdgeState) : Option EdgeState :=
  match s.pipeline with
  | none => none
  | some pipe => if pipe.producing then some (drain s { pipe with producing := false }) else none

/-- `RemoteStepServer::OnStepCredit`. -/
def onStepCredit (s : EdgeState) (credits : Nat) : EdgeState :=
  match s.pipeline with
  | none => s
  | some pipe =>
    match pipe.credit.grant credits with
    | .error _ => s
    | .ok credit => drain { s with granted := s.granted + credits } { pipe with credit := credit }

/-- The handlers of the producer's core. -/
def handleAtProducer (s : EdgeState) : RingMessage → EdgeState
  | .stepCredit credits => onStepCredit s credits
  | _ => s

-- The consumer

/-- `OnStepBatch` of the two consumers.  A read stores the batch and grants at once; a stage
    queues it; a torn-down consumer discards it. -/
def onStepBatch (s : EdgeState) (batch : StepBatch) : EdgeState :=
  match s.consumer with
  | none => s
  | some (.stage edge) =>
    { s with consumer := some (.stage { edge with input := edge.input ++ [batch] }) }
  | some (.read remote) =>
    { s with
      consumer := some (.read
        { remote with rows := remote.rows + batch.rowCount, batches := remote.batches ++ [batch] })
      consumerReady := s.consumerReady ++ [.sendRetry (.stepCredit 1)]
      drained := s.drained + 1 }

/-- `OnStepEof` of the two consumers. -/
def onStepEof (s : EdgeState) : EdgeState :=
  match s.consumer with
  | none => s
  | some (.stage edge) => { s with consumer := some (.stage { edge with inputEof := true }) }
  | some (.read remote) => { s with consumer := some (.read { remote with done := true }) }

/-- The handlers of the consumer's core. -/
def handleAtConsumer (s : EdgeState) : RingMessage → EdgeState
  | .stepBatch batch => onStepBatch s batch
  | .stepEof => onStepEof s
  | _ => s

/-- `RunConsumer` takes the next input batch. -/
def takeInput (s : EdgeState) : Option EdgeState :=
  match s.consumer with
  | some (.stage edge) =>
    match edge.current, edge.input with
    | none, batch :: rest =>
      some { s with consumer := some (.stage { edge with current := some batch, input := rest }) }
    | _, _ => none
  | _ => none

/-- `RunConsumer` has joined the batch in hand, and grants the upstream one more. -/
def grantInput (s : EdgeState) : Option EdgeState :=
  match s.consumer with
  | some (.stage edge) =>
    match edge.current with
    | some batch =>
      some { s with
        consumer := some (.stage
          { edge with current := none, consumed := edge.consumed ++ [batch] })
        consumerReady := s.consumerReady ++ [.sendRetry (.stepCredit 1)]
        drained := s.drained + 1 }
    | none => none
  | _ => none

/-- A consumer at its end of input goes: the stage finishes, or the session closes its read. -/
def retireConsumer (s : EdgeState) : Option EdgeState :=
  match s.consumer with
  | some consumer => if consumer.endOfInput then some { s with consumer := none } else none
  | none => none

-- The run

/-- One poll of the producer's ready queue. -/
def pollProducer (s : EdgeState) : Option EdgeState :=
  match s.producerReady with
  | [] => none
  | .function m :: rest => some (handleAtProducer { s with producerReady := rest } m)
  | .sendRetry m :: rest =>
    let polled := sendRetryPoll s.dataRing m.payloadSize m
    some { s with producerReady := requeue rest (.sendRetry m) polled.1, dataRing := polled.2 }

/-- One poll of the consumer's ready queue. -/
def pollConsumer (s : EdgeState) : Option EdgeState :=
  match s.consumerReady with
  | [] => none
  | .function m :: rest => some (handleAtConsumer { s with consumerReady := rest } m)
  | .sendRetry m :: rest =>
    let polled := sendRetryPoll s.creditRing m.payloadSize m
    some { s with consumerReady := requeue rest (.sendRetry m) polled.1, creditRing := polled.2 }

/-- `Scheduler::DrainInbox` takes one message: its handler becomes a task. -/
def receiveData (s : EdgeState) : Option EdgeState :=
  s.dataRing.tryReceive.map fun (m, ring) =>
    { s with dataRing := ring, consumerReady := s.consumerReady ++ [.function m] }

def receiveCredit (s : EdgeState) : Option EdgeState :=
  s.creditRing.tryReceive.map fun (m, ring) =>
    { s with creditRing := ring, producerReady := s.producerReady ++ [.function m] }

inductive EdgeAction where
  | sealBatch (rows : List UInt8) (rowCount : Nat)
  | finish
  | pollProducer
  | pollConsumer
  | receiveData
  | receiveCredit
  /-- Another edge or service of the producer's core sends to the consumer's core. -/
  | submitAtProducer (bytes : Nat)
  | submitAtConsumer (bytes : Nat)
  | takeInput
  | grantInput
  | retire
  deriving DecidableEq

/-- One step of the edge; `none` when the action cannot be taken. -/
def edgeStep (s : EdgeState) : EdgeAction → Option EdgeState
  | .sealBatch rows rowCount => sealAndDrain s rows rowCount
  | .finish => finishProducing s
  | .pollProducer => pollProducer s
  | .pollConsumer => pollConsumer s
  | .receiveData => receiveData s
  | .receiveCredit => receiveCredit s
  | .submitAtProducer bytes =>
    some { s with producerReady := s.producerReady ++ [.sendRetry (.other bytes)] }
  | .submitAtConsumer bytes =>
    some { s with consumerReady := s.consumerReady ++ [.sendRetry (.other bytes)] }
  | .takeInput => takeInput s
  | .grantInput => grantInput s
  | .retire => retireConsumer s

end Kds.Server
