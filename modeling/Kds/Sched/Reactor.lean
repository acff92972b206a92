/-
  Kds.Sched.Reactor

  One core's reactor (`src/sched/scheduler.cpp`): the ready queues, the timers, and one iteration
  of the loop.  A task is known by the number of its submission.  What the code outside the
  scheduler does in an iteration (the handlers, the callbacks, the polls, the hook, the clock) is
  the iteration's input.

  The log is no part of the source: it keeps, in order, what can change a task's answer, and the
  polls.
-/

import Kds.Lib.Run
import Kds.Sched.SendRetry
import Mathlib.Data.List.Sort
import Mathlib.Logic.Function.Basic
import Mathlib.Tactic.SplitIfs

namespace Kds.Sched

-- The scheduler's data

/-- `enum class SchedulingGroup`. -/
inductive SchedulingGroup where
  | foreground | maintenance | system
  deriving DecidableEq

def allGroups : List SchedulingGroup := [.foreground, .maintenance, .system]

/-- `GroupOf`: a message of no known group runs in the foreground. -/
def groupOf (schedGroup : Nat) : SchedulingGroup :=
  if schedGroup = 1 then .maintenance else if schedGroup = 2 then .system else .foreground

/-- `struct SchedulerConfig`. -/
structure SchedulerConfig where
  maxTasksPerIteration : Int := 64
  groupShares : SchedulingGroup → Nat := fun
    | .foreground => 1000
    | .maintenance => 100
    | .system => 50
  maxMessagesPerIteration : Int := 64
  decayThresholdNs : Nat := 1000000000
  maxIdleBlockMs : Int := 10

/-- `struct Timer`, without its callback. -/
structure Timer where
  deadline : Nat
  periodNs : Nat
  id : Nat
  deriving DecidableEq

/-- The heap's order (`LaterDeadlineFirst`). -/
def Timer.Before (a b : Timer) : Prop :=
  a.deadline < b.deadline ∨ a.deadline = b.deadline ∧ a.id ≤ b.id

instance : DecidableRel Timer.Before := fun a b => by unfold Timer.Before; infer_instance

/-- What happens to the reactor: `poll` with whether the task ran any code. -/
inductive Happening where
  | io | timer | message | hook
  | submit (task : Nat)
  | poll (task : Nat) (progress : Bool)
  deriving DecidableEq

/-- `class Scheduler`; the heap of timers is the list in its order. -/
structure Scheduler where
  config : SchedulerConfig
  attached : Bool
  messageHandlers : List Nat
  readyQueues : SchedulingGroup → List Nat := fun _ => []
  consumedNs : SchedulingGroup → Nat := fun _ => 0
  submits : Nat := 0
  lastIterationAdvanced : Bool := true
  timers : List Timer := []
  cancelledTimers : List Nat := []
  nextTimerId : Nat := 1
  log : List Happening := []

namespace Scheduler

/-- The constructor, and whether a transport is attached. -/
def create (config : SchedulerConfig) (attached : Bool) (messageHandlers : List Nat) : Scheduler :=
  { config :=
      if 0 < config.maxTasksPerIteration ∧ config.maxTasksPerIteration < 3 then
        { config with maxTasksPerIteration := 3 }
      else config
    attached := attached
    messageHandlers := messageHandlers }

def note (s : Scheduler) (h : Happening) : Scheduler := { s with log := s.log ++ [h] }

/-- The polls an iteration may make. -/
def budget (s : Scheduler) : Nat := s.config.maxTasksPerIteration.toNat

/-- The tasks in the queues. -/
def queued (s : Scheduler) : List Nat := allGroups.flatMap s.readyQueues

-- Calls on the scheduler

/-- `Scheduler::Submit`. -/
def submit (s : Scheduler) (g : SchedulingGroup) : Scheduler :=
  { s with
    readyQueues := Function.update s.readyQueues g (s.readyQueues g ++ [s.submits])
    submits := s.submits + 1
    log := s.log ++ [.submit s.submits] }

/-- `Scheduler::ArmTimer`. -/
def armTimer (s : Scheduler) (deadline periodNs : Nat) : Scheduler :=
  { s with
    timers := s.timers.orderedInsert Timer.Before ⟨deadline, periodNs, s.nextTimerId⟩
    nextTimerId := s.nextTimerId + 1 }

/-- `Scheduler::SubmitEvery`, at a reading of the clock. -/
def submitEvery (s : Scheduler) (now periodNs : Nat) : Scheduler :=
  let period := if periodNs = 0 then 1 else periodNs
  s.armTimer ((now + period) % 2 ^ 64) period

/-- `Scheduler::CancelTimer`. -/
def cancelTimer (s : Scheduler) (id : Nat) : Scheduler :=
  if id = 0 then s else { s with cancelledTimers := s.cancelledTimers.insert id }

end Scheduler

/-- A call that a handler, a callback, a poll, the hook or the thread that owns the reactor makes
    on the scheduler. -/
inductive Call where
  | submit (g : SchedulingGroup)
  | submitAt (deadline : Nat)
  | submitEvery (now periodNs : Nat)
  | cancelTimer (id : Nat)
  deriving DecidableEq

namespace Scheduler

def call (s : Scheduler) : Call → Scheduler
  | .submit g => s.submit g
  | .submitAt deadline => s.armTimer deadline 0
  | .submitEvery now periodNs => s.submitEvery now periodNs
  | .cancelTimer id => s.cancelTimer id

def callAll (s : Scheduler) (calls : List Call) : Scheduler := calls.foldl call s

-- Phases 1 to 3

/-- `Scheduler::IdleTimeoutMs`. -/
def idleTimeoutMs (s : Scheduler) (now : Nat) : Nat :=
  if s.queued ≠ [] ∧ s.lastIterationAdvanced = true then 0
  else
    match s.timers with
    | [] => s.config.maxIdleBlockMs.toNat
    | top :: _ =>
      if top.deadline ≤ now then 0
      else min ((top.deadline - now + 999999) % 2 ^ 64 / 1000000) s.config.maxIdleBlockMs.toNat

/-- The timeout `RunOnce` blocks with: a message in the inbox calls the block off. -/
def blockMs (s : Scheduler) (now : Nat) (pending : Bool) : Nat :=
  if s.idleTimeoutMs now ≠ 0 ∧ s.attached = true ∧ pending = true then 0 else s.idleTimeoutMs now

/-- A periodic timer's next deadline: the missed periods coalesce. -/
def nextDeadline (now : Nat) (due : Timer) : Nat :=
  let next := (due.deadline + due.periodNs) % 2 ^ 64
  if next ≤ now then (next + ((now - next) / due.periodNs + 1) * due.periodNs) % 2 ^ 64 else next

/-- What a timer that is due leaves armed. -/
def rearm (now : Nat) (due : Timer) (rest : List Timer) : List Timer :=
  if due.periodNs = 0 then rest
  else rest.orderedInsert Timer.Before { due with deadline := nextDeadline now due }

/-- `Scheduler::ExpireTimers`, with the number of timers fired; `none` past a bound on the turns
    of the loop, which need not end. -/
def expireTimers (now : Nat) (callbacks : Nat → List Call) :
    Nat → Nat → Scheduler → Option (Scheduler × Nat)
  | 0, _, _ => none
  | turns + 1, fired, s =>
    match s.timers with
    | [] => some (s, fired)
    | top :: rest =>
      if top.id ∈ s.cancelledTimers then
        expireTimers now callbacks turns fired
          { s with timers := rest, cancelledTimers := s.cancelledTimers.erase top.id }
      else if now < top.deadline then some (s, fired)
      else
        let s' := { s with timers := rearm now top rest }
        expireTimers now callbacks turns (fired + 1) ((s'.note .timer).callAll (callbacks fired))

/-- A message: its kind and the group in its header. -/
structure Message where
  kind : Nat
  schedGroup : Nat
  deriving DecidableEq

/-- A received message is dropped or queued as a task. -/
def receive (s : Scheduler) (m : Message) : Scheduler :=
  let s := s.note .message
  if m.kind ∈ s.messageHandlers then s.submit (groupOf m.schedGroup) else s

/-- The messages `Scheduler::DrainInbox` takes. -/
def drained (s : Scheduler) (inbox : List Message) : List Message :=
  if s.attached then inbox.take s.config.maxMessagesPerIteration.toNat else []

-- Phase 4

/-- What one poll does: `Task::Poll` and `Task::advanced_in_last_poll`. -/
structure Poll where
  result : PollResult := .suspended
  advancedInLastPoll : Bool := false
  spentNs : Nat := 0
  calls : List Call := []

/-- The poll did something. -/
def Poll.progress (p : Poll) : Bool := p.result = .done || p.advancedInLastPoll

/-- The variables of `Scheduler::RunReadyTasks`. -/
structure Round where
  sched : Scheduler
  remaining : SchedulingGroup → Nat
  polled : Nat := 0
  advanced : Bool := false

/-- The poll of a task that is off its queue. -/
def runPoll (s : Scheduler) (g : SchedulingGroup) (task : Nat) (rest : List Nat) (answer : Poll) :
    Scheduler :=
  let popped := { s with readyQueues := Function.update s.readyQueues g rest }
  (popped.note (.poll task answer.progress)).callAll answer.calls

/-- A poll is charged to its group, and a suspended task goes to the back of its queue. -/
def settle (s : Scheduler) (g : SchedulingGroup) (task : Nat) (answer : Poll) : Scheduler :=
  { s with
    consumedNs := Function.update s.consumedNs g ((s.consumedNs g + answer.spentNs) % 2 ^ 64)
    readyQueues :=
      if answer.result = .suspended then
        Function.update s.readyQueues g (s.readyQueues g ++ [task])
      else s.readyQueues }

/-- `poll_one`; `answers` are the iteration's polls in their order. -/
def pollOne (answers : Nat → Poll) (r : Round) (g : SchedulingGroup) : Round :=
  match r.sched.readyQueues g with
  | [] => r
  | task :: rest =>
    { sched := (r.sched.runPoll g task rest (answers r.polled)).settle g task (answers r.polled)
      remaining := Function.update r.remaining g (r.remaining g - 1)
      polled := r.polled + 1
      advanced := r.advanced || (answers r.polled).progress }

section

-- the comparison of two quotients of `double`s: a consumed runtime by a share, and another one
variable (less : Nat → Nat → Nat → Nat → Bool)

/-- The better of the best group so far and another group. -/
def betterGroup (s : Scheduler) (remaining : SchedulingGroup → Nat) (best : Option SchedulingGroup)
    (g : SchedulingGroup) : Option SchedulingGroup :=
  if remaining g = 0 then best
  else
    match best with
    | none => some g
    | some b =>
      if less (s.consumedNs g) (s.config.groupShares g) (s.consumedNs b) (s.config.groupShares b)
      then some g else some b

/-- `Scheduler::PickNextGroup`. -/
def pickNextGroup (s : Scheduler) (remaining : SchedulingGroup → Nat) : Option SchedulingGroup :=
  allGroups.foldl (betterGroup less s remaining) none

/-- The first floor: a poll for every group that has a task. -/
def pollFloors (answers : Nat → Poll) (r : Round) : Round :=
  allGroups.foldl (fun r g =>
    if r.polled < r.sched.budget ∧ 0 < r.remaining g then pollOne answers r g else r) r

/-- The rest of the round. -/
def pollShares (answers : Nat → Poll) : Nat → Round → Round
  | 0, r => r
  | left + 1, r =>
    if r.polled < r.sched.budget then
      match pickNextGroup less r.sched r.remaining with
      | none => r
      | some g => pollShares answers left (pollOne answers r g)
    else r

/-- `Scheduler::MaybeDecayConsumedRuntime`. -/
def maybeDecayConsumedRuntime (s : Scheduler) : Scheduler :=
  if (allGroups.map s.consumedNs).foldl max 0 ≤ s.config.decayThresholdNs then s
  else { s with consumedNs := fun g => s.consumedNs g / 2 }

/-- `Scheduler::RunReadyTasks`, before the decay. -/
def runRound (s : Scheduler) (answers : Nat → Poll) : Round :=
  pollShares less answers s.budget
    (pollFloors answers { sched := s, remaining := fun g => (s.readyQueues g).length })

/-- The queues and counters that `Scheduler::RunReadyTasks` leaves. -/
def afterRound (r : Round) : Scheduler :=
  if r.polled = 0 then r.sched else r.sched.maybeDecayConsumedRuntime

-- An iteration

/-- What an iteration meets: the clock before the block, whether the inbox holds a message then,
    the calls of every handler an I/O event finds, the clock and the callbacks of phase 2, the
    inbox, the polls, and the hook. -/
structure Iteration where
  now : Nat := 0
  pending : Bool := false
  io : List (List Call) := []
  timerNow : Nat := 0
  timerTurns : Nat := 1
  callbacks : Nat → List Call := fun _ => []
  inbox : List Message := []
  answers : Nat → Poll := fun _ => {}
  hookCalls : List Call := []
  hookWorked : Bool := false

/-- Phase 1's handlers. -/
def handleIo (s : Scheduler) (io : List (List Call)) : Scheduler :=
  io.foldl (fun s calls => (s.note .io).callAll calls) s

/-- Phase 4.5: the post-task hook. -/
def runHook (s : Scheduler) (i : Iteration) : Scheduler :=
  if i.hookWorked then (s.callAll i.hookCalls).note .hook else s.callAll i.hookCalls

/-- `Scheduler::RunOnce`. -/
def runOnce (s : Scheduler) (i : Iteration) : Option Scheduler := do
  let (expired, fired) ←
    expireTimers i.timerNow i.callbacks i.timerTurns 0 (s.handleIo i.io)
  let messages := expired.drained i.inbox
  let round := runRound less (messages.foldl receive expired) i.answers
  let hooked := (afterRound round).runHook i
  let advanced := i.io ≠ [] || fired ≠ 0 || messages ≠ [] || round.advanced || i.hookWorked ||
    hooked.submits ≠ s.submits
  some { hooked with lastIterationAdvanced := advanced }

/-- A step of the core: an iteration, or a call between two of them. -/
inductive Action where
  | runOnce (i : Iteration)
  | outside (c : Call)

def step (s : Scheduler) : Action → Option Scheduler
  | .runOnce i => runOnce less s i
  | .outside c => some (s.call c)

end

end Scheduler

end Kds.Sched
