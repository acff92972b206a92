/-
  Kds.Server.StepEdgeRuns

  What a pipeline edge delivers over whole runs.

  The receiver checks no sequence number, so delivery rests on two things the transport does not
  guarantee: that no batch is wider than a ring slot (a wider one is dropped by the task that
  carries it, and its target size is thirty-two slots), and that a message sent back by a full ring
  has no later message of its edge behind it (which the requeue puts in front of it).  A step that
  keeps both is `Orderly`, and over orderly steps the stream is kept whole and in order.
-/

import Kds.Lib.Run
import Kds.Server.StepEdge

namespace Kds.Server

open Lib Sched List

-- The stream, in order

/-- The messages of the edge's data direction. -/
def RingMessage.isData : RingMessage → Bool
  | .stepBatch _ | .stepEof => true
  | .stepCredit _ | .other _ => false

def dataOf (ms : List RingMessage) : List RingMessage := ms.filter RingMessage.isData

@[simp] theorem dataOf_append (ms ns : List RingMessage) :
    dataOf (ms ++ ns) = dataOf ms ++ dataOf ns := filter_append ..

@[simp] theorem dataOf_nil : dataOf [] = [] := rfl

@[simp] theorem dataOf_cons_stepBatch (batch : StepBatch) (ms : List RingMessage) :
    dataOf (.stepBatch batch :: ms) = .stepBatch batch :: dataOf ms := rfl

@[simp] theorem dataOf_cons_stepEof (ms : List RingMessage) :
    dataOf (.stepEof :: ms) = .stepEof :: dataOf ms := rfl

@[simp] theorem dataOf_cons_stepCredit (credits : Nat) (ms : List RingMessage) :
    dataOf (.stepCredit credits :: ms) = dataOf ms := rfl

@[simp] theorem dataOf_cons_other (bytes : Nat) (ms : List RingMessage) :
    dataOf (.other bytes :: ms) = dataOf ms := rfl

@[simp] theorem dataOf_map_stepBatch (batches : List StepBatch) :
    dataOf (batches.map .stepBatch) = batches.map .stepBatch := by
  induction batches with
  | nil => rfl
  | cons batch batches ih => simp [ih]

/-- What has reached the consumer, its end included. -/
def Consumer.arrived (c : Consumer) : List RingMessage :=
  c.received.map .stepBatch ++ if c.eofSeen then [.stepEof] else []

/-- What the transport holds of the edge's data, the oldest first. -/
def EdgeState.inFlight (s : EdgeState) : List RingMessage :=
  dataOf (handlers s.consumerReady) ++ dataOf s.dataRing.slots ++ dataOf (sends s.producerReady)

/-- What the stage has sealed and not sent. -/
def EdgeState.unsent (s : EdgeState) : List RingMessage :=
  match s.pipeline with
  | none => []
  | some pipe => pipe.batches.map .stepBatch

/-- The stream as the stage means it: what it sealed, and the end once its entry is gone. -/
def EdgeState.emitted (s : EdgeState) : List RingMessage :=
  s.sealedBatches.map .stepBatch ++ if s.pipeline.isNone then [.stepEof] else []

/-- While its consumer stands, the stream is what arrived, then what travels, then what waits. -/
def InOrder (s : EdgeState) : Prop :=
  ∀ c, s.consumer = some c → c.arrived ++ s.inFlight ++ s.unsent = s.emitted

/-- The stream is in order, and every message of it fits a slot. -/
structure Whole (s : EdgeState) : Prop where
  order : InOrder s
  fits : ∀ batch ∈ s.sealedBatches, 24 + batch.rows.length ≤ coreRingPayloadBytes
  slot : s.dataRing.maxPayload = coreRingPayloadBytes

/-- A step that drops and reorders nothing: a sealed batch fits a ring slot, and a message of the
    edge that meets a full ring is the last of the edge in its ready queue. -/
def Orderly (s : EdgeState) : EdgeAction → Prop
  | .sealBatch rows _ => 24 + rows.length ≤ coreRingPayloadBytes
  | .pollProducer =>
    match s.producerReady with
    | .sendRetry m :: rest =>
      m.isData = true → s.dataRing.capacity ≤ s.dataRing.slots.length → dataOf (sends rest) = []
    | _ => True
  | _ => True

instance (s : EdgeState) (a : EdgeAction) : Decidable (Orderly s a) := by
  unfold Orderly
  split <;> (try split) <;> infer_instance

-- Nothing follows the end

/-- A list of batches and an end, read as a stream of batches that may end: the batches agree and
    nothing follows. -/
theorem eq_of_eof_append {received sealedBatches : List StepBatch} {later tail : List RingMessage}
    (htail : tail = [] ∨ tail = [.stepEof])
    (h : received.map .stepBatch ++ .stepEof :: later = sealedBatches.map .stepBatch ++ tail) :
    received = sealedBatches ∧ later = [] := by
  induction received generalizing sealedBatches with
  | nil =>
    cases sealedBatches with
    | nil => rcases htail with rfl | rfl <;> simp_all
    | cons batch rest => simp at h
  | cons batch received ih =>
    cases sealedBatches with
    | nil => rcases htail with rfl | rfl <;> simp at h
    | cons batch' rest =>
      simp only [map_cons, cons_append, List.cons.injEq,
        RingMessage.stepBatch.injEq] at h
      obtain ⟨hrest, hlater⟩ := ih h.2
      exact ⟨by rw [h.1, hrest], hlater⟩

variable {s : EdgeState} {c : Consumer} {m : RingMessage} {rest : List (ReadyTask RingMessage)}

theorem InOrder.complete_of_eofSeen (h : InOrder s) (hc : s.consumer = some c)
    (heof : c.eofSeen = true) :
    c.received = s.sealedBatches ∧ s.inFlight = [] ∧ s.pipeline = none := by
  have hstream := h c hc
  simp only [Consumer.arrived, heof, if_true, append_assoc, singleton_append,
    EdgeState.emitted] at hstream
  have htail : (if s.pipeline.isNone then [RingMessage.stepEof] else []) = [] ∨
      (if s.pipeline.isNone then [RingMessage.stepEof] else []) = [.stepEof] := by
    split <;> simp
  obtain ⟨hreceived, hlater⟩ := eq_of_eof_append htail hstream
  change s.inFlight ++ s.unsent = [] at hlater
  have hgone : s.pipeline = none := by
    by_contra hopen
    simp [Option.isNone_iff_eq_none, hopen, hreceived] at hstream
  exact ⟨hreceived, (append_eq_nil_iff.mp hlater).1, hgone⟩

-- Draining

theorem drainLoop_out_append_left (credit : EdgeCredit) (batches : List StepBatch) :
    (drainLoop credit batches).out ++ (drainLoop credit batches).left = batches := by
  induction batches generalizing credit with
  | nil => rfl
  | cons batch rest ih =>
    by_cases havailable : credit.available = 0
    · simp [drainLoop, EdgeCredit.canSend, havailable]
    · have hsend : 0 < credit.available := by omega
      simp [drainLoop, EdgeCredit.canSend, EdgeCredit.consumeOnSend, havailable, hsend, ih]

theorem drainLoop_pays (credit : EdgeCredit) (batches : List StepBatch) :
    (drainLoop credit batches).out.length + (drainLoop credit batches).credit.available =
      credit.available := by
  induction batches generalizing credit with
  | nil => simp [drainLoop]
  | cons batch rest ih =>
    by_cases havailable : credit.available = 0
    · simp [drainLoop, EdgeCredit.canSend, havailable]
    · have hsend : 0 < credit.available := by omega
      have hrest := ih { credit with available := credit.available - 1 }
      simp only [drainLoop, EdgeCredit.canSend, EdgeCredit.consumeOnSend, havailable, hsend,
        decide_true, if_true, if_false, length_cons]
      dsimp only at hrest ⊢
      omega

/-- Draining moves batches from the stage to the end of its core's ready queue, and lets the end
    follow them when it erases the entry. -/
theorem drain_stream (s : EdgeState) (pipe : Pipeline) :
    dataOf (sends (drain s pipe).producerReady) ++ (drain s pipe).unsent =
      dataOf (sends s.producerReady) ++ pipe.batches.map .stepBatch ++
        if (drain s pipe).pipeline.isNone then [.stepEof] else [] := by
  have hsplit := drainLoop_out_append_left pipe.credit pipe.batches
  by_cases hstay : (pipe.producing || !(drainLoop pipe.credit pipe.batches).left.isEmpty) = true
  · simp only [drain, hstay, if_true, EdgeState.unsent, sends_append, sends_map_sendRetry,
      dataOf_append, dataOf_map_stepBatch, append_assoc, ← map_append, hsplit,
      Option.isNone_some, Bool.false_eq_true, if_false, append_nil]
  · have hleft : (drainLoop pipe.credit pipe.batches).left = [] := by
      by_contra hne
      exact hstay (by simp [hne])
    rw [hleft, append_nil] at hsplit
    simp [drain, hstay, EdgeState.unsent, hsplit, sends]

section Frame

variable (s : EdgeState) (pipe : Pipeline)

@[simp] theorem drain_consumer : (drain s pipe).consumer = s.consumer := by
  unfold drain
  dsimp only
  split <;> rfl

@[simp] theorem drain_consumerReady : (drain s pipe).consumerReady = s.consumerReady := by
  unfold drain
  dsimp only
  split <;> rfl

@[simp] theorem drain_dataRing : (drain s pipe).dataRing = s.dataRing := by
  unfold drain
  dsimp only
  split <;> rfl

@[simp] theorem drain_creditRing : (drain s pipe).creditRing = s.creditRing := by
  unfold drain
  dsimp only
  split <;> rfl

@[simp] theorem drain_sealedBatches : (drain s pipe).sealedBatches = s.sealedBatches := by
  unfold drain
  dsimp only
  split <;> rfl

@[simp] theorem drain_granted : (drain s pipe).granted = s.granted := by
  unfold drain
  dsimp only
  split <;> rfl

@[simp] theorem drain_drained : (drain s pipe).drained = s.drained := by
  unfold drain
  dsimp only
  split <;> rfl

@[simp] theorem handlers_drain :
    handlers (drain s pipe).producerReady = handlers s.producerReady := by
  unfold drain
  dsimp only
  split <;> simp [handlers]

end Frame

variable {pipe : Pipeline}

theorem drain_inOrder
    (h : ∀ c, s.consumer = some c → c.arrived ++ s.inFlight ++ pipe.batches.map .stepBatch =
      s.sealedBatches.map .stepBatch) : InOrder (drain s pipe) := by
  intro c hc
  rw [drain_consumer] at hc
  have hstream := drain_stream s pipe
  have hbefore := h c hc
  simp only [EdgeState.inFlight, append_assoc] at hbefore
  simp only [EdgeState.inFlight, drain_consumerReady, drain_dataRing, EdgeState.emitted,
    drain_sealedBatches, append_assoc]
  rw [hstream, ← hbefore]
  simp only [append_assoc]

-- One step keeps the stream

variable {t : EdgeState}

/-- A step that leaves the stage alone keeps the stream when what has arrived and what travels
    make the same list as before. -/
theorem Whole.of_arrived (h : Whole s) (harrived : ∀ c', t.consumer = some c' →
      ∃ c, s.consumer = some c ∧ c'.arrived ++ t.inFlight = c.arrived ++ s.inFlight)
    (hpipeline : t.pipeline = s.pipeline) (hsealed : t.sealedBatches = s.sealedBatches)
    (hslot : t.dataRing.maxPayload = s.dataRing.maxPayload) : Whole t where
  order := by
    intro c' hc'
    obtain ⟨c, hc, heq⟩ := harrived c' hc'
    have hbefore := h.order c hc
    simp only [EdgeState.unsent, EdgeState.emitted, hpipeline, hsealed] at hbefore ⊢
    rw [heq, hbefore]
  fits := by
    rw [hsealed]
    exact h.fits
  slot := hslot.trans h.slot

theorem Whole.of_inFlight (h : Whole s) (hconsumer : t.consumer = s.consumer)
    (hflight : t.inFlight = s.inFlight) (hpipeline : t.pipeline = s.pipeline)
    (hsealed : t.sealedBatches = s.sealedBatches)
    (hslot : t.dataRing.maxPayload = s.dataRing.maxPayload) : Whole t :=
  h.of_arrived (fun c hc => ⟨c, hconsumer ▸ hc, by rw [hflight]⟩) hpipeline hsealed hslot

theorem Whole.drain {pipe' : Pipeline} (h : Whole s)
    (hpipe : s.pipeline = some pipe) (hbatches : pipe'.batches = pipe.batches) :
    Whole (Server.drain s pipe') := by
  refine ⟨drain_inOrder fun c hc => ?_, ?_, ?_⟩
  · have hbefore := h.order c hc
    simpa [EdgeState.unsent, EdgeState.emitted, hpipe, hbatches] using hbefore
  · rw [drain_sealedBatches]
    exact h.fits
  · rw [drain_dataRing]
    exact h.slot

theorem Whole.sealAndDrain {rows : List UInt8} {rowCount : Nat} (h : Whole s)
    (hfits : 24 + rows.length ≤ coreRingPayloadBytes)
    (hrun : Server.sealAndDrain s rows rowCount = some t) : Whole t := by
  unfold Server.sealAndDrain at hrun
  cases hpipe : s.pipeline with
  | none => simp [hpipe] at hrun
  | some pipe =>
    simp only [hpipe] at hrun
    split at hrun
    · cases hrun
      refine ⟨drain_inOrder fun c hc => ?_, ?_, ?_⟩
      · have hbefore := h.order c hc
        simp only [EdgeState.unsent, EdgeState.emitted, hpipe, Option.isNone_some,
          Bool.false_eq_true, if_false, append_nil] at hbefore
        simp only [map_append, ← hbefore, append_assoc]
        rfl
      · intro batch hbatch
        rw [drain_sealedBatches] at hbatch
        rcases Lib.mem_snoc.mp hbatch with hold | rfl
        · exact h.fits batch hold
        · exact hfits
      · rw [drain_dataRing]
        exact h.slot
    · cases hrun

theorem Whole.finishProducing (h : Whole s)
    (hrun : Server.finishProducing s = some t) : Whole t := by
  unfold Server.finishProducing at hrun
  cases hpipe : s.pipeline with
  | none => simp [hpipe] at hrun
  | some pipe =>
    simp only [hpipe] at hrun
    split at hrun
    · cases hrun
      exact h.drain hpipe rfl
    · cases hrun

theorem Whole.onStepCredit (h : Whole s) (credits : Nat) :
    Whole (Server.onStepCredit s credits) := by
  unfold Server.onStepCredit
  cases hpipe : s.pipeline with
  | none => exact h
  | some pipe =>
    dsimp only
    split
    · exact h
    · have hgranted : Whole { s with granted := s.granted + credits } :=
        h.of_inFlight rfl rfl rfl rfl rfl
      exact hgranted.drain hpipe rfl

theorem Whole.fits_of_mem_inFlight (h : Whole s) (hc : s.consumer = some c) (hm : m ∈ s.inFlight) :
    m.payloadSize ≤ coreRingPayloadBytes := by
  have hstream : m ∈ s.emitted := by
    rw [← h.order c hc]
    exact mem_append_left _ (mem_append_right _ hm)
  rcases mem_append.mp hstream with hmap | heof
  · obtain ⟨batch, hbatch, rfl⟩ := mem_map.mp hmap
    exact h.fits batch hbatch
  · split at heof
    · obtain rfl := mem_singleton.mp heof
      show 16 ≤ coreRingPayloadBytes
      decide
    · cases heof

theorem dataOf_cons (m : RingMessage) (ms : List RingMessage) :
    dataOf (m :: ms) = if m.isData then m :: dataOf ms else dataOf ms := filter_cons

theorem Whole.pollSend (h : Whole s) (hready : s.producerReady = .sendRetry m :: rest)
    (horderly : m.isData = true → s.dataRing.capacity ≤ s.dataRing.slots.length →
      dataOf (sends rest) = []) :
    Whole { s with
      producerReady := requeue rest (.sendRetry m) (sendRetryPoll s.dataRing m.payloadSize m).1
      dataRing := (sendRetryPoll s.dataRing m.payloadSize m).2 } := by
  rcases sendRetryPoll_cases s.dataRing m.payloadSize m with ⟨hwide, hpoll⟩ | ⟨hfull, hpoll⟩ |
    ⟨_, _, hpoll⟩
  · -- A message too wide for a slot is none of the edge's while the consumer stands.
    rw [hpoll]
    refine h.of_arrived ?_ rfl rfl rfl
    intro c hc
    refine ⟨c, hc, ?_⟩
    cases hdata : m.isData with
    | false => simp [EdgeState.inFlight, requeue, hready, sends, dataOf_cons, hdata]
    | true =>
      have hmem : m ∈ s.inFlight := by
        simp [EdgeState.inFlight, hready, sends, dataOf_cons, hdata]
      have hfit := h.fits_of_mem_inFlight hc hmem
      rw [h.slot] at hwide
      omega
  · rw [hpoll]
    refine h.of_inFlight rfl ?_ rfl rfl rfl
    cases hdata : m.isData with
    | false => simp [EdgeState.inFlight, requeue, hready, sends, dataOf_cons, hdata]
    | true =>
      have hlast := horderly hdata hfull
      simp [EdgeState.inFlight, requeue, hready, sends, dataOf_cons, hdata, hlast]
  · rw [hpoll]
    refine h.of_inFlight rfl ?_ rfl rfl rfl
    cases hdata : m.isData <;>
      simp [EdgeState.inFlight, requeue, hready, sends, dataOf_cons, hdata]

theorem Whole.pollProducer (h : Whole s) (horderly : Orderly s .pollProducer)
    (hrun : Server.pollProducer s = some t) : Whole t := by
  unfold Server.pollProducer at hrun
  unfold Orderly at horderly
  split at hrun
  · cases hrun
  · rename_i m rest hready
    cases hrun
    have hpopped : Whole { s with producerReady := rest } :=
      h.of_inFlight rfl (by simp [EdgeState.inFlight, hready, sends]) rfl rfl rfl
    cases m with
    | stepCredit credits => exact hpopped.onStepCredit credits
    | stepBatch batch => exact hpopped
    | stepEof => exact hpopped
    | other bytes => exact hpopped
  · rename_i m rest hready
    cases hrun
    simp only [hready] at horderly
    exact h.pollSend hready horderly

/-- A data message handed to a standing consumer: it has not seen the end, and takes the message
    as the next of its stream. -/
theorem Whole.deliver (h : Whole s) (hready : s.consumerReady = .function m :: rest)
    (hdata : m.isData = true) {c' : Consumer} (hc : s.consumer = some c)
    (harrived : c.eofSeen = false → c'.arrived = c.arrived ++ [m])
    (hconsumer : t.consumer = some c') (hhandlers : handlers t.consumerReady = handlers rest)
    (hring : t.dataRing = s.dataRing) (hproducer : t.producerReady = s.producerReady)
    (hpipeline : t.pipeline = s.pipeline) (hsealed : t.sealedBatches = s.sealedBatches) :
    Whole t := by
  have hflight : s.inFlight = m :: t.inFlight := by
    simp [EdgeState.inFlight, hready, handlers, dataOf_cons, hdata, hhandlers, hring, hproducer]
  have hopen : c.eofSeen = false := by
    by_contra heof
    have hempty := (h.order.complete_of_eofSeen hc (by simpa using heof)).2.1
    rw [hflight] at hempty
    cases hempty
  refine h.of_arrived (fun d hd => ⟨c, hc, ?_⟩) hpipeline hsealed (by rw [hring])
  obtain rfl : c' = d := Option.some.inj (hconsumer.symm.trans hd)
  rw [harrived hopen, hflight, append_assoc, singleton_append]

theorem Whole.of_no_consumer (h : Whole s) (hconsumer : t.consumer = none)
    (hsealed : t.sealedBatches = s.sealedBatches) (hring : t.dataRing = s.dataRing) : Whole t where
  order := fun c hc => by rw [hconsumer] at hc; cases hc
  fits := by rw [hsealed]; exact h.fits
  slot := by rw [hring]; exact h.slot

theorem Whole.onStepBatch (h : Whole s) {batch : StepBatch}
    (hready : s.consumerReady = .function (.stepBatch batch) :: rest) :
    Whole (Server.onStepBatch { s with consumerReady := rest } batch) := by
  unfold Server.onStepBatch
  split
  · rename_i hnone
    exact h.of_no_consumer hnone rfl rfl
  · rename_i edge hstage
    refine h.deliver hready rfl hstage ?_ rfl rfl rfl rfl rfl rfl
    intro hopen
    simp_all [Consumer.arrived, Consumer.received, Consumer.eofSeen]
  · rename_i remote hread
    refine h.deliver hready rfl hread ?_ rfl (by simp [handlers]) rfl rfl rfl rfl
    intro hopen
    simp_all [Consumer.arrived, Consumer.received, Consumer.eofSeen]

theorem Whole.onStepEof (h : Whole s) (hready : s.consumerReady = .function .stepEof :: rest) :
    Whole (Server.onStepEof { s with consumerReady := rest }) := by
  unfold Server.onStepEof
  split
  · rename_i hnone
    exact h.of_no_consumer hnone rfl rfl
  · rename_i edge hstage
    refine h.deliver hready rfl hstage ?_ rfl rfl rfl rfl rfl rfl
    intro hopen
    simp_all [Consumer.arrived, Consumer.received, Consumer.eofSeen]
  · rename_i remote hread
    refine h.deliver hready rfl hread ?_ rfl rfl rfl rfl rfl rfl
    intro hopen
    simp_all [Consumer.arrived, Consumer.received, Consumer.eofSeen]

theorem handlers_requeue (rest : List (ReadyTask RingMessage)) (m : RingMessage)
    (result : PollResult) : handlers (requeue rest (.sendRetry m) result) = handlers rest := by
  cases result <;> simp [requeue, handlers]

theorem Whole.pollConsumer (h : Whole s) (hrun : Server.pollConsumer s = some t) : Whole t := by
  unfold Server.pollConsumer at hrun
  split at hrun
  · cases hrun
  · rename_i m rest hready
    cases hrun
    cases m with
    | stepBatch batch => exact h.onStepBatch hready
    | stepEof => exact h.onStepEof hready
    | stepCredit credits =>
      exact h.of_inFlight rfl
        (by simp [handleAtConsumer, EdgeState.inFlight, hready, handlers]) rfl rfl rfl
    | other bytes =>
      exact h.of_inFlight rfl
        (by simp [handleAtConsumer, EdgeState.inFlight, hready, handlers]) rfl rfl rfl
  · rename_i m rest hready
    cases hrun
    exact h.of_inFlight rfl
      (by simp [EdgeState.inFlight, hready, handlers, handlers_requeue]) rfl rfl rfl

theorem Whole.receiveData (h : Whole s) (hrun : Server.receiveData s = some t) :
    Whole t := by
  unfold Server.receiveData SpscRing.tryReceive at hrun
  split at hrun
  · cases hrun
  · rename_i m rest hslots
    cases hrun
    refine h.of_inFlight rfl ?_ rfl rfl rfl
    cases hdata : m.isData <;> simp [EdgeState.inFlight, hslots, handlers, dataOf_cons, hdata]

theorem Whole.receiveCredit (h : Whole s) (hrun : Server.receiveCredit s = some t) : Whole t := by
  unfold Server.receiveCredit SpscRing.tryReceive at hrun
  split at hrun
  · cases hrun
  · cases hrun
    exact h.of_inFlight rfl (by simp [EdgeState.inFlight, sends]) rfl rfl rfl

theorem Whole.takeInput (h : Whole s) (hrun : Server.takeInput s = some t) :
    Whole t := by
  unfold Server.takeInput at hrun
  split at hrun
  · rename_i edge hstage
    split at hrun
    · rename_i batch rest hcurrent hinput
      cases hrun
      refine h.of_arrived (fun c hc => ⟨.stage edge, hstage, ?_⟩) rfl rfl rfl
      cases hc
      cases heof : edge.inputEof <;>
        simp [Consumer.arrived, Consumer.received, Consumer.eofSeen, hcurrent, hinput, heof,
          EdgeState.inFlight]
    · cases hrun
  · cases hrun

theorem Whole.grantInput (h : Whole s) (hrun : Server.grantInput s = some t) :
    Whole t := by
  unfold Server.grantInput at hrun
  split at hrun
  · rename_i edge hstage
    split at hrun
    · rename_i batch hcurrent
      cases hrun
      refine h.of_arrived (fun c hc => ⟨.stage edge, hstage, ?_⟩) rfl rfl rfl
      cases hc
      cases heof : edge.inputEof <;>
        simp [Consumer.arrived, Consumer.received, Consumer.eofSeen, hcurrent, heof,
          EdgeState.inFlight, handlers]
    · cases hrun
  · cases hrun

theorem Whole.retireConsumer (h : Whole s) (hrun : Server.retireConsumer s = some t) : Whole t := by
  unfold Server.retireConsumer at hrun
  split at hrun
  · split at hrun
    · cases hrun
      exact h.of_no_consumer rfl rfl rfl
    · cases hrun
  · cases hrun

/-- An orderly step keeps the stream whole. -/
theorem Whole.step (a : EdgeAction) (h : Whole s) (horderly : Orderly s a)
    (hrun : edgeStep s a = some t) : Whole t := by
  cases a with
  | sealBatch rows rowCount => exact h.sealAndDrain horderly hrun
  | finish => exact h.finishProducing hrun
  | pollProducer => exact h.pollProducer horderly hrun
  | pollConsumer => exact h.pollConsumer hrun
  | receiveData => exact h.receiveData hrun
  | receiveCredit => exact h.receiveCredit hrun
  | submitAtProducer bytes =>
    cases hrun
    exact h.of_inFlight rfl (by simp [EdgeState.inFlight, sends]) rfl rfl rfl
  | submitAtConsumer bytes =>
    cases hrun
    exact h.of_inFlight rfl (by simp [EdgeState.inFlight, handlers]) rfl rfl rfl
  | takeInput => exact h.takeInput hrun
  | grantInput => exact h.grantInput hrun
  | retire => exact h.retireConsumer hrun

-- Credit

/-- The credit a message carries. -/
def RingMessage.creditOf : RingMessage → Nat
  | .stepCredit credits => credits
  | _ => 0

def creditsIn (ms : List RingMessage) : Nat := (ms.map RingMessage.creditOf).sum

@[simp] theorem creditsIn_nil : creditsIn [] = 0 := rfl

@[simp] theorem creditsIn_cons (m : RingMessage) (ms : List RingMessage) :
    creditsIn (m :: ms) = m.creditOf + creditsIn ms := rfl

@[simp] theorem creditsIn_append (ms ns : List RingMessage) :
    creditsIn (ms ++ ns) = creditsIn ms + creditsIn ns := by
  simp [creditsIn]

/-- The credit on its way back to the stage. -/
def EdgeState.returning (s : EdgeState) : Nat :=
  creditsIn (sends s.consumerReady) + creditsIn s.creditRing.slots +
    creditsIn (handlers s.producerReady)

/-- Every batch sent is covered by the opening credit or a grant, and every grant by a batch the
    consumer has drained. -/
structure Covered (s : EdgeState) : Prop where
  paid : s.sent ≤ initialCreditsPerEdge + s.granted
  balance : ∀ pipe, s.pipeline = some pipe →
    s.sent + pipe.credit.available = initialCreditsPerEdge + s.granted
  earned : s.granted + s.returning ≤ s.drained

theorem Covered.of_stage (h : Covered s) (hpipeline : t.pipeline = s.pipeline)
    (hsent : t.sent = s.sent) (hgranted : t.granted = s.granted)
    (hreturning : s.drained + t.returning ≤ t.drained + s.returning) : Covered t where
  paid := by rw [hsent, hgranted]; exact h.paid
  balance := by rw [hpipeline, hsent, hgranted]; exact h.balance
  earned := by
    have := h.earned
    omega

theorem returning_drain (s : EdgeState) (pipe : Pipeline) :
    (drain s pipe).returning = s.returning := by
  simp [EdgeState.returning]

theorem covered_drain
    (hbalance : s.sent + pipe.credit.available = initialCreditsPerEdge + s.granted)
    (hearned : s.granted + s.returning ≤ s.drained) : Covered (drain s pipe) := by
  have hpays := drainLoop_pays pipe.credit pipe.batches
  have hsent : (drain s pipe).sent = s.sent + (drainLoop pipe.credit pipe.batches).out.length := by
    unfold drain
    dsimp only
    split <;> rfl
  refine ⟨?_, ?_, ?_⟩
  · rw [hsent, drain_granted]
    omega
  · intro pipe' hpipe'
    rw [hsent, drain_granted]
    unfold drain at hpipe'
    dsimp only at hpipe'
    split at hpipe'
    · cases hpipe'
      dsimp only
      omega
    · cases hpipe'
  · rw [drain_granted, returning_drain, drain_drained]
    exact hearned

theorem Covered.onStepCredit {credits : Nat}
    (h : Covered s) (hearned : s.granted + credits + s.returning ≤ s.drained) :
    Covered (Server.onStepCredit s credits) := by
  unfold Server.onStepCredit
  split
  · exact h
  · rename_i pipe hpipe
    split
    · exact h
    · rename_i credit hgrant
      unfold EdgeCredit.grant at hgrant
      split at hgrant
      · cases hgrant
      · cases hgrant
        have hbalance := h.balance pipe hpipe
        apply covered_drain
        · show s.sent + (pipe.credit.available + credits) = _ + (s.granted + credits)
          omega
        · exact hearned

theorem creditsIn_poll (ring : SpscRing RingMessage) (m : RingMessage)
    (rest : List (ReadyTask RingMessage)) :
    creditsIn (sends (requeue rest (.sendRetry m) (sendRetryPoll ring m.payloadSize m).1)) +
        creditsIn (sendRetryPoll ring m.payloadSize m).2.slots ≤
      creditsIn (sends (.sendRetry m :: rest)) + creditsIn ring.slots := by
  rcases sendRetryPoll_cases ring m.payloadSize m with ⟨_, hpoll⟩ | ⟨_, hpoll⟩ | ⟨_, _, hpoll⟩
  · simp only [hpoll, requeue, sends, creditsIn_cons]
    omega
  · simp only [hpoll, requeue, sends, sends_append, creditsIn_append, creditsIn_cons, creditsIn_nil]
    omega
  · simp only [hpoll, requeue, sends, creditsIn_append, creditsIn_cons, creditsIn_nil]
    omega

theorem Covered.pollProducer (h : Covered s)
    (hrun : Server.pollProducer s = some t) : Covered t := by
  unfold Server.pollProducer at hrun
  split at hrun
  · cases hrun
  · rename_i m rest hready
    cases hrun
    have hreturning : s.returning = m.creditOf +
        ({ s with producerReady := rest } : EdgeState).returning := by
      simp only [EdgeState.returning, hready, handlers, creditsIn_cons]
      omega
    have hpopped : Covered { s with producerReady := rest } :=
      h.of_stage rfl rfl rfl (show s.drained + _ ≤ s.drained + _ by omega)
    cases m with
    | stepCredit credits =>
      apply hpopped.onStepCredit
      have := h.earned
      rw [hreturning] at this
      show s.granted + credits + _ ≤ s.drained
      simp only [RingMessage.creditOf] at this
      omega
    | stepBatch batch => exact hpopped
    | stepEof => exact hpopped
    | other bytes => exact hpopped
  · rename_i m rest hready
    cases hrun
    refine h.of_stage rfl rfl rfl (Nat.le_of_eq ?_)
    simp [EdgeState.returning, hready, handlers, handlers_requeue]

theorem Covered.pollConsumer (h : Covered s)
    (hrun : Server.pollConsumer s = some t) : Covered t := by
  unfold Server.pollConsumer at hrun
  split at hrun
  · cases hrun
  · rename_i m rest hready
    cases hrun
    have hpopped : Covered { s with consumerReady := rest } :=
      h.of_stage rfl rfl rfl (Nat.le_of_eq (by simp [EdgeState.returning, hready, sends]))
    cases m with
    | stepBatch batch =>
      show Covered (onStepBatch { s with consumerReady := rest } batch)
      unfold onStepBatch
      split
      · exact hpopped
      · exact hpopped.of_stage rfl rfl rfl (Nat.le_refl _)
      · refine hpopped.of_stage rfl rfl rfl ?_
        simp only [EdgeState.returning, sends_append, sends, creditsIn_append, creditsIn_cons,
          RingMessage.creditOf, creditsIn_nil]
        omega
    | stepEof =>
      show Covered (onStepEof { s with consumerReady := rest })
      unfold onStepEof
      split
      · exact hpopped
      · exact hpopped.of_stage rfl rfl rfl (Nat.le_refl _)
      · exact hpopped.of_stage rfl rfl rfl (Nat.le_refl _)
    | stepCredit credits => exact hpopped
    | other bytes => exact hpopped
  · rename_i m rest hready
    cases hrun
    have hpoll := creditsIn_poll s.creditRing m rest
    refine h.of_stage rfl rfl rfl ?_
    simp only [EdgeState.returning, hready]
    omega

/-- Every step, orderly or not, keeps the credit covered. -/
theorem Covered.step (a : EdgeAction) (h : Covered s)
    (hrun : edgeStep s a = some t) : Covered t := by
  cases a with
  | sealBatch rows rowCount =>
    simp only [edgeStep, sealAndDrain] at hrun
    split at hrun
    · cases hrun
    · rename_i pipe hpipe
      split at hrun
      · cases hrun
        exact covered_drain (h.balance pipe hpipe) h.earned
      · cases hrun
  | finish =>
    simp only [edgeStep, finishProducing] at hrun
    split at hrun
    · cases hrun
    · rename_i pipe hpipe
      split at hrun
      · cases hrun
        exact covered_drain (h.balance pipe hpipe) h.earned
      · cases hrun
  | pollProducer => exact h.pollProducer hrun
  | pollConsumer => exact h.pollConsumer hrun
  | receiveData =>
    simp only [edgeStep, receiveData, SpscRing.tryReceive] at hrun
    split at hrun
    · cases hrun
    · cases hrun
      exact h.of_stage rfl rfl rfl (Nat.le_of_eq (by simp [EdgeState.returning, sends]))
  | receiveCredit =>
    simp only [edgeStep, receiveCredit, SpscRing.tryReceive] at hrun
    split at hrun
    · cases hrun
    · rename_i m rest hslots
      cases hrun
      refine h.of_stage rfl rfl rfl ?_
      simp only [EdgeState.returning, hslots, handlers_append, handlers, creditsIn_append,
        creditsIn_cons, creditsIn_nil]
      omega
  | submitAtProducer bytes =>
    cases hrun
    exact h.of_stage rfl rfl rfl (Nat.le_of_eq (by simp [EdgeState.returning, handlers]))
  | submitAtConsumer bytes =>
    cases hrun
    exact h.of_stage rfl rfl rfl
      (Nat.le_of_eq (by simp [EdgeState.returning, sends, RingMessage.creditOf]))
  | takeInput =>
    simp only [edgeStep, takeInput] at hrun
    split at hrun
    · split at hrun
      · cases hrun
        exact h.of_stage rfl rfl rfl (Nat.le_refl _)
      · cases hrun
    · cases hrun
  | grantInput =>
    simp only [edgeStep, grantInput] at hrun
    split at hrun
    · split at hrun
      · cases hrun
        refine h.of_stage rfl rfl rfl ?_
        simp only [EdgeState.returning, sends_append, sends, creditsIn_append, creditsIn_cons,
          RingMessage.creditOf, creditsIn_nil]
        omega
      · cases hrun
    · cases hrun
  | retire =>
    simp only [edgeStep, retireConsumer] at hrun
    split at hrun
    · split at hrun
      · cases hrun
        exact h.of_stage rfl rfl rfl (Nat.le_refl _)
      · cases hrun
    · cases hrun

-- Whole runs

theorem Consumer.eofSeen_of_endOfInput (h : c.endOfInput = true) : c.eofSeen = true := by
  cases c with
  | stage edge =>
    simp only [Consumer.endOfInput, Bool.and_eq_true] at h
    exact h.1.1
  | read remote => exact h

/-- **An edge run in orderly steps delivers its batches whole and in order.**  A consumer at its end
    of input has received exactly the sealed batches, in sealing order, and the stage that sealed
    them is gone; and no more batches were sent than the opening credit and the grants cover, each
    grant for a batch the consumer had drained. -/
theorem edge_delivers_in_order {s₀ s : EdgeState} (hinit : s₀ = .intoStage ∨ s₀ = .intoRead)
    (hreach : Reach edgeStep Orderly s₀ s) :
    (∀ c, s.consumer = some c → c.endOfInput = true →
      c.received = s.sealedBatches ∧ s.pipeline = none) ∧
    s.sent ≤ initialCreditsPerEdge + s.granted ∧ s.granted ≤ s.drained := by
  have hstart : Whole s₀ ∧ Covered s₀ := by
    rcases hinit with rfl | rfl
    · exact ⟨⟨fun c hc => by obtain rfl := Option.some.inj hc; rfl, by simp [EdgeState.intoStage],
        rfl⟩, by decide, fun pipe hpipe => by obtain rfl := Option.some.inj hpipe; rfl, by decide⟩
    · exact ⟨⟨fun c hc => by obtain rfl := Option.some.inj hc; rfl, by simp [EdgeState.intoRead],
        rfl⟩, by decide, fun pipe hpipe => by obtain rfl := Option.some.inj hpipe; rfl, by decide⟩
  have hwhole : Whole s := hreach.invariant hstart.1 fun a hinv hok hrun => hinv.step a hok hrun
  have hcovered : Covered s := hreach.invariant hstart.2 fun a hinv _ hrun => hinv.step a hrun
  refine ⟨fun c hc hend => ?_, hcovered.paid, ?_⟩
  · obtain ⟨hreceived, _, hgone⟩ :=
      hwhole.order.complete_of_eofSeen hc (Consumer.eofSeen_of_endOfInput hend)
    exact ⟨hreceived, hgone⟩
  · have := hcovered.earned
    omega

/-- Two batches and the end, over a ring with room, into a session's read. -/
def deliveringRun : List EdgeAction :=
  [.sealBatch [1, 2] 1, .sealBatch [3] 1, .finish, .pollProducer, .pollProducer, .pollProducer,
    .receiveData, .receiveData, .receiveData, .pollConsumer, .pollConsumer, .pollConsumer]

theorem edge_delivers_two_batches : ∃ s, Reach edgeStep Orderly .intoRead s ∧
    ∃ c, s.consumer = some c ∧ c.endOfInput = true ∧ c.received = s.sealedBatches ∧
      s.sealedBatches = [⟨0, 1, [1, 2]⟩, ⟨1, 1, [3]⟩] := by
  have hrun : (runList (guardStep (fun s a => decide (Orderly s a)) edgeStep) deliveringRun
      .intoRead).any (fun s => s.consumer.any Consumer.endOfInput &&
        (s.sealedBatches == [⟨0, 1, [1, 2]⟩, ⟨1, 1, [3]⟩])) = true := by decide +kernel
  obtain ⟨s, hreach, hend⟩ := exists_reach_of_runList _ (fun s a => of_decide_eq_true) _ _ _ hrun
  obtain ⟨hdone, hsealed⟩ := Bool.and_eq_true_iff.mp hend
  obtain ⟨c, hc, hdone⟩ := (Option.any_eq_true _ _).mp hdone
  exact ⟨s, hreach, c, hc, hdone,
    ((edge_delivers_in_order (.inr rfl) hreach).1 c hc hdone).1, eq_of_beq hsealed⟩

/-- One batch of 1001 bytes of rows: its send task is done with it on the first poll, and the end
    that follows fits. -/
def wideBatchRun : List EdgeAction :=
  [.sealBatch (List.replicate 1001 0) 1, .finish, .pollProducer, .pollProducer, .receiveData,
    .pollConsumer]

/-- One small batch that finds the ring full: it goes to the back of the ready queue, behind the
    end, which the ring has room for by then. -/
def fullRingRun : List EdgeAction :=
  List.replicate 256 (.submitAtProducer 8) ++ List.replicate 256 .pollProducer ++
    [.sealBatch [7] 1, .finish, .pollProducer, .receiveData, .pollProducer] ++
    List.replicate 256 .receiveData ++ List.replicate 257 .pollConsumer

/-- A read is done without the one batch that was sealed, because the batch was wider than a slot
    and because the batch was sent back by a full ring. -/
theorem read_done_without_its_batch :
    (∃ s, Reach edgeStep (fun _ _ => True) .intoRead s ∧ ∃ c, s.consumer = some c ∧
      c.endOfInput = true ∧ c.received = [] ∧ s.sealedBatches = [⟨0, 1, List.replicate 1001 0⟩]) ∧
    (∃ s, Reach edgeStep (fun _ _ => True) .intoRead s ∧ ∃ c, s.consumer = some c ∧
      c.endOfInput = true ∧ c.received = [] ∧ s.sealedBatches = [⟨0, 1, [7]⟩]) := by
  have hwide : (runList (guardStep (fun _ _ => true) edgeStep) wideBatchRun .intoRead).any
      (fun s => s.consumer.any (fun c => c.endOfInput && (c.received == [])) &&
        (s.sealedBatches == [⟨0, 1, List.replicate 1001 0⟩])) = true := by decide +kernel
  have hfull : (runList (guardStep (fun _ _ => true) edgeStep) fullRingRun .intoRead).any
      (fun s => s.consumer.any (fun c => c.endOfInput && (c.received == [])) &&
        (s.sealedBatches == [⟨0, 1, [7]⟩])) = true := by decide +kernel
  constructor
  · obtain ⟨s, hreach, hend⟩ := exists_reach_of_runList _ (fun _ _ _ => trivial) _ _ _ hwide
    obtain ⟨hdone, hsealed⟩ := Bool.and_eq_true_iff.mp hend
    obtain ⟨c, hc, hdone⟩ := (Option.any_eq_true _ _).mp hdone
    obtain ⟨hdone, hempty⟩ := Bool.and_eq_true_iff.mp hdone
    exact ⟨s, hreach, c, hc, hdone, eq_of_beq hempty, eq_of_beq hsealed⟩
  · obtain ⟨s, hreach, hend⟩ := exists_reach_of_runList _ (fun _ _ _ => trivial) _ _ _ hfull
    obtain ⟨hdone, hsealed⟩ := Bool.and_eq_true_iff.mp hend
    obtain ⟨c, hc, hdone⟩ := (Option.any_eq_true _ _).mp hdone
    obtain ⟨hdone, hempty⟩ := Bool.and_eq_true_iff.mp hdone
    exact ⟨s, hreach, c, hc, hdone, eq_of_beq hempty, eq_of_beq hsealed⟩

end Kds.Server
