/-
  Kds.Sched.SendRetry

  One direction of the cross-core transport: the bounded ring between two cores
  (`src/sched/spsc_ring.cpp`), the task that retries a send against it
  (`include/kds/sched/send_retry.hpp`), and the ready queue such tasks wait in
  (`src/sched/scheduler.cpp`).

  Every message of a core to another is a task of its own.  A task that meets a full ring is
  suspended, and a suspended task goes to the back of its queue: the queue keeps the order of the
  tasks that have not met a full ring, not the order in which the messages were sent.
-/

import Kds.Base.Status

namespace Kds.Sched

variable {μ : Type*}

/-- `kCoreRingSlots`. -/
def coreRingSlots : Nat := 256

/-- `kCoreRingPayloadBytes`. -/
def coreRingPayloadBytes : Nat := 1024

/-- A single-producer single-consumer ring of message slots. -/
structure SpscRing (μ : Type*) where
  capacity : Nat
  maxPayload : Nat
  slots : List μ := []

/-- The ring the engine builds between two cores, before its first message. -/
def SpscRing.create : SpscRing μ :=
  { capacity := coreRingSlots, maxPayload := coreRingPayloadBytes }

/-- `SpscRing::TrySend`: a message wider than a slot is refused outright, a full ring with
    `kResourceExhausted`. -/
def SpscRing.trySend (ring : SpscRing μ) (payloadSize : Nat) (m : μ) : StatusOr (SpscRing μ) :=
  if ring.maxPayload < payloadSize then
    .error (.invalidArgument
      (s!"spsc ring: payload of {payloadSize} bytes exceeds the slot size of " ++
        toString ring.maxPayload))
  else if ring.capacity ≤ ring.slots.length then
    .error (.resourceExhausted s!"spsc ring: full ({ring.capacity} slots)")
  else .ok { ring with slots := ring.slots ++ [m] }

/-- `SpscRing::TryReceive`. -/
def SpscRing.tryReceive (ring : SpscRing μ) : Option (μ × SpscRing μ) :=
  match ring.slots with
  | [] => none
  | m :: rest => some (m, { ring with slots := rest })

inductive PollResult where
  | done | suspended
  deriving DecidableEq

/-- `SendRetryTask::Poll`, for a task without a completion callback, as every pipeline message is
    sent: only a full ring is retried, and every other refusal ends the task. -/
def sendRetryPoll (ring : SpscRing μ) (payloadSize : Nat) (m : μ) : PollResult × SpscRing μ :=
  match ring.trySend payloadSize m with
  | .error status => if status.code = .resourceExhausted then (.suspended, ring) else (.done, ring)
  | .ok ring' => (.done, ring')

/-- A task of the foreground group: a message waiting to be sent, or a received message whose
    handler is to run. -/
inductive ReadyTask (μ : Type*) where
  | sendRetry (m : μ)
  | function (m : μ)

/-- What `poll_one` does with a task after its poll. -/
def requeue (rest : List (ReadyTask μ)) (task : ReadyTask μ) : PollResult → List (ReadyTask μ)
  | .done => rest
  | .suspended => rest ++ [task]

/-- The messages waiting to be sent, in queue order. -/
def sends : List (ReadyTask μ) → List μ
  | [] => []
  | .sendRetry m :: rest => m :: sends rest
  | .function _ :: rest => sends rest

/-- The received messages waiting for their handler, in queue order. -/
def handlers : List (ReadyTask μ) → List μ
  | [] => []
  | .sendRetry _ :: rest => handlers rest
  | .function m :: rest => m :: handlers rest

@[simp] theorem sends_append (q r : List (ReadyTask μ)) : sends (q ++ r) = sends q ++ sends r := by
  induction q with
  | nil => rfl
  | cons task q ih => cases task <;> simp [sends, ih]

@[simp] theorem handlers_append (q r : List (ReadyTask μ)) :
    handlers (q ++ r) = handlers q ++ handlers r := by
  induction q with
  | nil => rfl
  | cons task q ih => cases task <;> simp [handlers, ih]

@[simp] theorem sends_map_sendRetry {β : Type*} (f : β → μ) (bs : List β) :
    sends (bs.map fun b => ReadyTask.sendRetry (f b)) = bs.map f := by
  induction bs with
  | nil => rfl
  | cons b bs ih => simp [sends, ih]

@[simp] theorem handlers_map_sendRetry {β : Type*} (f : β → μ) (bs : List β) :
    handlers (bs.map fun b => ReadyTask.sendRetry (f b)) = [] := by
  induction bs with
  | nil => rfl
  | cons b bs ih => simp [handlers, ih]

theorem sendRetryPoll_cases (ring : SpscRing μ) (payloadSize : Nat) (m : μ) :
    (ring.maxPayload < payloadSize ∧ sendRetryPoll ring payloadSize m = (.done, ring)) ∨
    (ring.capacity ≤ ring.slots.length ∧ sendRetryPoll ring payloadSize m = (.suspended, ring)) ∨
    (payloadSize ≤ ring.maxPayload ∧ ring.slots.length < ring.capacity ∧
      sendRetryPoll ring payloadSize m = (.done, { ring with slots := ring.slots ++ [m] })) := by
  by_cases hwide : ring.maxPayload < payloadSize
  · exact .inl ⟨hwide, by simp [sendRetryPoll, SpscRing.trySend, hwide, Status.invalidArgument]⟩
  · by_cases hfull : ring.capacity ≤ ring.slots.length
    · exact .inr (.inl ⟨hfull, by
        simp [sendRetryPoll, SpscRing.trySend, hwide, hfull, Status.resourceExhausted]⟩)
    · exact .inr (.inr ⟨by omega, by omega, by
        simp [sendRetryPoll, SpscRing.trySend, hwide, hfull]⟩)

end Kds.Sched
