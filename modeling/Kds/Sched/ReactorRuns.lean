/-
  Kds.Sched.ReactorRuns

  When the reactor may sleep.  It goes by one round of polls in which nothing happened.  A round
  takes no more than the loop budget, so such a round has asked every task exactly if the tasks
  fit in the budget; and a task submitted between two iterations is counted by neither of them.
-/

import Kds.Sched.Reactor

namespace Kds.Sched

open Lib List
open Function (update update_self update_of_ne update_apply update_idem)

-- What has to hold at a block

/-- Something that can change the answer of a task. -/
def Happening.Disturbs (task : Nat) : Happening → Prop
  | .poll t progress => t ≠ task ∧ progress = true
  | _ => True

/-- The task has been polled since anything could last change its answer. -/
def PolledSince (log : List Happening) (task : Nat) : Prop :=
  ∃ before progress after, log = before ++ .poll task progress :: after ∧
    ∀ h ∈ after, ¬ h.Disturbs task

def Call.submits : Call → Bool
  | .submit _ => true
  | _ => false

namespace Scheduler

/-- A block at `now` is safe: every queued task is polled, and the block ends within a
    millisecond of the earliest timer. -/
def SafeBlock (s : Scheduler) (now : Nat) (pending : Bool) : Prop :=
  s.blockMs now pending ≠ 0 →
    (∀ task ∈ s.queued, PolledSince s.log task) ∧
    ∀ timer ∈ s.timers, now + 1000000 * s.blockMs now pending < timer.deadline + 1000000

/-- Nothing happens in an iteration: no handler is called, no timer is due, no message comes, the
    hook does nothing, and the polls that the budget allows run no code and submit nothing. -/
structure Iteration.Quiet (s : Scheduler) (i : Iteration) : Prop where
  io : i.io = []
  timers : ∀ t ∈ s.timers, t.id ∈ s.cancelledTimers ∨ i.timerNow < t.deadline
  inbox : s.drained i.inbox = []
  hook : i.hookWorked = false
  hookCalls : ∀ c ∈ i.hookCalls, c.submits = false
  polls : ∀ k < min s.budget s.queued.length,
    (i.answers k).progress = false ∧ ∀ c ∈ (i.answers k).calls, c.submits = false

/-- The condition: a quiet iteration finds no more tasks than its budget, and a submission between
    two iterations comes when the last one was not quiet. -/
def Kept (s : Scheduler) : Action → Prop
  | .runOnce i => i.Quiet s → s.queued.length ≤ s.budget
  | .outside c => c.submits = true → s.lastIterationAdvanced = true

-- What the calls change

@[simp] theorem config_call (s : Scheduler) (c : Call) : (s.call c).config = s.config := by
  cases c with
  | cancelTimer id => rw [call, cancelTimer]; split <;> rfl
  | _ => rfl

theorem config_callAll (s : Scheduler) (calls : List Call) :
    (s.callAll calls).config = s.config := by
  induction calls generalizing s with
  | nil => rfl
  | cons c calls ih => exact (ih (s.call c)).trans (config_call s c)

theorem submits_callAll (s : Scheduler) (calls : List Call) :
    (s.callAll calls).submits = s.submits + calls.countP Call.submits := by
  induction calls generalizing s with
  | nil => rfl
  | cons c calls ih =>
    have hone : (s.call c).submits = s.submits + if c.submits then 1 else 0 := by
      cases c with
      | cancelTimer id => rw [call, cancelTimer]; split <;> rfl
      | _ => rfl
    rw [callAll, foldl_cons, ← callAll, ih, hone, countP_cons]
    omega

theorem readyQueues_callAll (s : Scheduler) (calls : List Call) (g : SchedulingGroup) :
    ∃ more, (s.callAll calls).readyQueues g = s.readyQueues g ++ more := by
  induction calls generalizing s with
  | nil => exact ⟨[], (append_nil _).symm⟩
  | cons c calls ih =>
    obtain ⟨more, hmore⟩ := ih (s.call c)
    have hone : ∃ first, (s.call c).readyQueues g = s.readyQueues g ++ first := by
      cases c with
      | submit g' =>
        by_cases hg : g = g'
        · subst hg
          exact ⟨[s.submits], update_self ..⟩
        · exact ⟨[], (update_of_ne hg ..).trans (append_nil _).symm⟩
      | cancelTimer id =>
        refine ⟨[], ?_⟩
        rw [call, cancelTimer, append_nil]
        split <;> rfl
      | _ => exact ⟨[], (append_nil _).symm⟩
    obtain ⟨first, hfirst⟩ := hone
    exact ⟨first ++ more, by rw [← append_assoc, ← hfirst]; exact hmore⟩

variable {s : Scheduler}

theorem callAll_quiet {calls : List Call} (h : ∀ c ∈ calls, c.submits = false) :
    (s.callAll calls).readyQueues = s.readyQueues ∧ (s.callAll calls).log = s.log := by
  induction calls generalizing s with
  | nil => exact ⟨rfl, rfl⟩
  | cons c calls ih =>
    obtain ⟨hqueues, hlog⟩ := ih (s := s.call c) fun c' hc' => h c' (mem_cons_of_mem c hc')
    have hone : (s.call c).readyQueues = s.readyQueues ∧ (s.call c).log = s.log := by
      cases c with
      | submit g => cases h _ mem_cons_self
      | cancelTimer id => rw [call, cancelTimer]; split <;> exact ⟨rfl, rfl⟩
      | _ => exact ⟨rfl, rfl⟩
    exact ⟨hqueues.trans hone.1, hlog.trans hone.2⟩

-- The heap of timers

instance : IsTrans Timer Timer.Before :=
  ⟨fun a b c hab hbc => by unfold Timer.Before at *; omega⟩

instance : Std.Total Timer.Before := ⟨fun a b => by unfold Timer.Before; omega⟩

def Heap (timers : List Timer) : Prop := timers.Pairwise Timer.Before

theorem Heap.insert {timers : List Timer} (h : Heap timers) (t : Timer) :
    Heap (timers.orderedInsert Timer.Before t) :=
  List.Pairwise.orderedInsert t timers h

theorem Heap.callAll (h : Heap s.timers) (calls : List Call) :
    Heap (s.callAll calls).timers := by
  induction calls generalizing s with
  | nil => exact h
  | cons c calls ih =>
    apply ih
    cases c with
    | submit g => exact h
    | submitAt deadline => exact h.insert _
    | submitEvery now periodNs => exact h.insert _
    | cancelTimer id => rw [call, cancelTimer]; split <;> exact h

theorem Heap.top_le {top t : Timer} {rest : List Timer} (h : Heap (top :: rest))
    (ht : t ∈ top :: rest) : top.deadline ≤ t.deadline := by
  rcases mem_cons.mp ht with rfl | hrest
  · exact Nat.le_refl _
  · rcases rel_of_pairwise_cons h hrest with hlt | heq
    · exact Nat.le_of_lt hlt
    · exact Nat.le_of_eq heq.1

/-- Two states with the same tasks and the same history. -/
structure SameWork (s t : Scheduler) : Prop where
  config : t.config = s.config
  attached : t.attached = s.attached
  readyQueues : t.readyQueues = s.readyQueues
  submits : t.submits = s.submits
  log : t.log = s.log

variable {now turns fired : Nat} {callbacks : Nat → List Call} {t : Scheduler}

variable {n : Nat}

theorem Heap.expireTimers (hheap : Heap s.timers)
    (h : expireTimers now callbacks turns fired s = some (t, n)) : Heap t.timers := by
  induction turns generalizing fired s with
  | zero => cases h
  | succ turns ih =>
    rw [Scheduler.expireTimers] at h
    split at h
    · cases h
      exact hheap
    · rename_i top rest htimers
      rw [htimers] at hheap
      have hrest : Heap rest := List.Pairwise.of_cons hheap
      split_ifs at h with hcancelled hdue
      · exact ih (s := { s with timers := rest, cancelledTimers := _ }) hrest h
      · cases h
        rw [htimers]
        exact hheap
      · refine ih (Heap.callAll ?_ _) h
        change Heap (rearm now top rest)
        rw [rearm]
        split_ifs
        · exact hrest
        · exact hrest.insert _

theorem fired_le (h : expireTimers now callbacks turns fired s = some (t, n)) : fired ≤ n := by
  induction turns generalizing fired s with
  | zero => cases h
  | succ turns ih =>
    rw [expireTimers] at h
    split at h
    · cases h
      exact Nat.le_refl _
    · split_ifs at h
      · exact ih h
      · cases h
        exact Nat.le_refl _
      · exact Nat.le_of_succ_le (ih h)

theorem expireTimers_quiet (hheap : Heap s.timers)
    (h : expireTimers now callbacks turns fired s = some (t, fired)) :
    SameWork s t ∧ ∀ timer ∈ s.timers, timer.id ∈ s.cancelledTimers ∨ now < timer.deadline := by
  induction turns generalizing s with
  | zero => cases h
  | succ turns ih =>
    rw [expireTimers] at h
    split at h
    · rename_i htimers
      cases h
      rw [htimers]
      exact ⟨⟨rfl, rfl, rfl, rfl, rfl⟩, nofun⟩
    · rename_i top rest htimers
      rw [htimers] at hheap ⊢
      split_ifs at h with hcancelled hdue
      · obtain ⟨hsame, hlater⟩ := ih (s := { s with timers := rest, cancelledTimers := _ })
          (List.Pairwise.of_cons hheap) h
        refine ⟨⟨hsame.1, hsame.2, hsame.3, hsame.4, hsame.5⟩, fun timer htimer => ?_⟩
        rcases mem_cons.mp htimer with rfl | hin
        · exact .inl hcancelled
        · exact (hlater timer hin).imp_left mem_of_mem_erase
      · cases h
        refine ⟨⟨rfl, rfl, rfl, rfl, rfl⟩, fun timer htimer => .inr ?_⟩
        exact Nat.lt_of_lt_of_le hdue (hheap.top_le htimer)
      · exact absurd (fired_le h) (Nat.not_succ_le_self _)

-- One round of polls

/-- The polls that are left of a round. -/
def leftOf (remaining : SchedulingGroup → Nat) : Nat :=
  remaining .foreground + remaining .maintenance + remaining .system

/-- A round that began in `s`, where `size` tasks were queued. -/
structure Round.Inv (s : Scheduler) (size : Nat) (answers : Nat → Poll) (r : Round) : Prop where
  config : r.sched.config = s.config
  heap : Heap r.sched.timers
  total : r.polled + leftOf r.remaining = size
  within : ∀ g, r.remaining g ≤ (r.sched.readyQueues g).length
  submits : s.submits ≤ r.sched.submits
  quiet : r.advanced = false → r.sched.submits = s.submits →
    (∀ k < r.polled,
      (answers k).progress = false ∧ ∀ c ∈ (answers k).calls, c.submits = false) ∧
    ∃ polled : List Nat, r.sched.log = s.log ++ polled.map (.poll · false) ∧
      ∀ g, ∀ task ∈ (r.sched.readyQueues g).drop (r.remaining g), task ∈ polled

variable {g : SchedulingGroup}

theorem leftOf_update {remaining : SchedulingGroup → Nat} (hleft : 0 < remaining g) :
    leftOf (update remaining g (remaining g - 1)) + 1 = leftOf remaining := by
  rw [leftOf, leftOf]
  cases g <;> simp only [update_apply, reduceCtorEq, if_true, if_false] <;> omega

theorem submits_runPoll (s : Scheduler) (g : SchedulingGroup) (task : Nat) (rest : List Nat)
    (answer : Poll) : (s.runPoll g task rest answer).submits =
      s.submits + answer.calls.countP Call.submits :=
  submits_callAll _ _

variable {task : Nat}

theorem length_settle {g' : SchedulingGroup} {rest : List Nat} {answer : Poll} :
    (update s.readyQueues g rest g').length ≤
      (((s.runPoll g task rest answer).settle g task answer).readyQueues g').length := by
  have hpoll : (update s.readyQueues g rest g').length ≤
      ((s.runPoll g task rest answer).readyQueues g').length := by
    obtain ⟨more, hmore⟩ := readyQueues_callAll
      ({ s with readyQueues := update s.readyQueues g rest }.note
        (.poll task answer.progress)) answer.calls g'
    rw [runPoll, hmore, length_append]
    exact Nat.le_add_right _ _
  apply Nat.le_trans hpoll
  rw [settle]
  dsimp only
  split
  · rw [update_apply]
    split
    · rename_i hg
      rw [hg, length_append]
      exact Nat.le_add_right _ _
    · exact Nat.le_refl _
  · exact Nat.le_refl _

theorem settle_quiet {s : Scheduler} {g : SchedulingGroup} {task : Nat} {rest : List Nat}
    {answer : Poll} (hprogress : answer.progress = false)
    (hcalls : ∀ c ∈ answer.calls, c.submits = false) :
    ((s.runPoll g task rest answer).settle g task answer).readyQueues =
        update s.readyQueues g (rest ++ [task]) ∧
      ((s.runPoll g task rest answer).settle g task answer).log =
        s.log ++ [.poll task false] := by
  have hsuspended : answer.result = .suspended := by
    cases hresult : answer.result with
    | done =>
      rw [Poll.progress, hresult] at hprogress
      cases hprogress
    | suspended => rfl
  have hqueues : (s.runPoll g task rest answer).readyQueues =
      update s.readyQueues g rest := (callAll_quiet hcalls).1
  have hlog : (s.runPoll g task rest answer).log = s.log ++ [.poll task answer.progress] :=
    (callAll_quiet hcalls).2
  constructor
  · rw [settle, if_pos hsuspended]
    change update (s.runPoll g task rest answer).readyQueues g _ = _
    rw [hqueues, update_self, update_idem]
  · rw [← hprogress]
    exact hlog

theorem Round.Inv.pollOne {size : Nat} {answers : Nat → Poll} {r : Round}
    (h : Round.Inv s size answers r) (hleft : 0 < r.remaining g) :
    Round.Inv s size answers (pollOne answers r g) ∧
      (pollOne answers r g).polled = r.polled + 1 := by
  rw [Scheduler.pollOne]
  split
  case h_1 hqueue =>
    have := h.within g
    rw [hqueue, length_nil] at this
    omega
  case h_2 task rest hqueue =>
    refine ⟨?_, rfl⟩
    have hlen := h.within g
    rw [hqueue, length_cons] at hlen
    have hmono := h.submits
    have hsubmits := submits_runPoll r.sched g task rest (answers r.polled)
    constructor
    · exact (config_callAll ..).trans h.config
    · change Heap (r.sched.runPoll g task rest (answers r.polled)).timers
      rw [runPoll]
      apply Heap.callAll
      exact h.heap
    · have htotal := h.total
      have hone := leftOf_update hleft
      change r.polled + 1 + leftOf (update r.remaining g _) = size
      omega
    · intro g'
      apply Nat.le_trans _ length_settle
      have hwithin := h.within g'
      change update r.remaining g _ g' ≤ _
      by_cases hg : g' = g
      · subst hg
        rw [update_self, update_self]
        omega
      · rw [update_of_ne hg, update_of_ne hg]
        exact hwithin
    · change s.submits ≤ (r.sched.runPoll g task rest (answers r.polled)).submits
      omega
    · intro hadvanced hsame
      obtain ⟨hbefore, hprogress⟩ := Bool.or_eq_false_iff.mp hadvanced
      change (r.sched.runPoll g task rest (answers r.polled)).submits = s.submits at hsame
      have hcalls : ∀ c ∈ (answers r.polled).calls, c.submits = false := by
        have hcount : (answers r.polled).calls.countP Call.submits = 0 := by omega
        exact fun c hc => by simpa using countP_eq_zero.mp hcount c hc
      obtain ⟨hpolls, polled, hlog, hasked⟩ := h.quiet hbefore (by omega)
      obtain ⟨hqueues', hlog'⟩ := @settle_quiet r.sched g task rest _ hprogress hcalls
      refine ⟨fun k hk => ?_, polled ++ [task], ?_, fun g' t ht => ?_⟩
      · rcases Nat.lt_succ_iff_lt_or_eq.mp hk with hlt | rfl
        · exact hpolls k hlt
        · exact ⟨hprogress, hcalls⟩
      · rw [hlog', hlog, map_append, append_assoc]
        rfl
      · rw [hqueues'] at ht
        dsimp only at ht
        by_cases hg : g' = g
        · subst hg
          rw [update_self, update_self,
            drop_append_of_le_length (by omega)] at ht
          rcases mem_append.mp ht with hin | hin
          · refine mem_append_left _ (hasked g' t ?_)
            rw [hqueue, ← Nat.sub_add_cancel hleft]
            exact hin
          · exact mem_append_right _ hin
        · rw [update_of_ne hg, update_of_ne hg] at ht
          exact mem_append_left _ (hasked g' t ht)

section

variable (less : Nat → Nat → Nat → Nat → Bool)

variable {s : Scheduler} {remaining : SchedulingGroup → Nat}

variable {best : Option SchedulingGroup} {g : SchedulingGroup}

theorem betterGroup_eq_none
    (h : betterGroup less s remaining best g = none) : best = none ∧ remaining g = 0 := by
  unfold betterGroup at h
  split at h
  · exact ⟨h, by assumption⟩
  · split at h
    · cases h
    · split at h <;> cases h

variable {picked : SchedulingGroup}

theorem betterGroup_eq_some (h : betterGroup less s remaining best g = some picked) :
    best = some picked ∨ picked = g ∧ 0 < remaining g := by
  unfold betterGroup at h
  split at h
  · exact .inl h
  · rename_i hleft
    split at h
    · exact .inr ⟨(Option.some.inj h).symm, Nat.pos_of_ne_zero hleft⟩
    · split at h
      · exact .inr ⟨(Option.some.inj h).symm, Nat.pos_of_ne_zero hleft⟩
      · exact .inl h

theorem pickNextGroup_eq_none
    (h : pickNextGroup less s remaining = none) : leftOf remaining = 0 := by
  have hfold (gs : List SchedulingGroup) (best : Option SchedulingGroup)
      (hnone : gs.foldl (betterGroup less s remaining) best = none) :
      best = none ∧ ∀ g ∈ gs, remaining g = 0 := by
    induction gs generalizing best with
    | nil => exact ⟨hnone, nofun⟩
    | cons g gs ih =>
      obtain ⟨hbetter, hrest⟩ := ih _ hnone
      obtain ⟨hbest, hg⟩ := betterGroup_eq_none less hbetter
      exact ⟨hbest, forall_mem_cons.mpr ⟨hg, hrest⟩⟩
  have hall (g : SchedulingGroup) : remaining g = 0 := (hfold _ _ h).2 g (by cases g <;> decide)
  rw [leftOf, hall, hall, hall]

theorem pickNextGroup_eq_some (h : pickNextGroup less s remaining = some picked) :
    0 < remaining picked := by
  have hfold (gs : List SchedulingGroup) (best : Option SchedulingGroup)
      (hbest : ∀ g, best = some g → 0 < remaining g)
      (hsome : gs.foldl (betterGroup less s remaining) best = some picked) :
      0 < remaining picked := by
    induction gs generalizing best with
    | nil => exact hbest picked hsome
    | cons g gs ih =>
      refine ih _ (fun g' hg' => ?_) hsome
      rcases betterGroup_eq_some less hg' with hold | ⟨rfl, hleft⟩
      · exact hbest g' hold
      · exact hleft
  exact hfold allGroups none nofun h

variable {size : Nat} {answers : Nat → Poll} {r : Round}

theorem Round.Inv.pollFloors
    (h : Round.Inv s size answers r) : Round.Inv s size answers (pollFloors answers r) := by
  rw [Scheduler.pollFloors]
  generalize allGroups = gs
  induction gs generalizing r with
  | nil => exact h
  | cons g gs ih =>
    rw [foldl_cons]
    apply ih
    split_ifs with hleft
    · exact (h.pollOne hleft.2).1
    · exact h

theorem Round.Inv.pollShares {left : Nat}
    (h : Round.Inv s size answers r) (hturns : s.budget ≤ r.polled + left) :
    Round.Inv s size answers (pollShares less answers left r) ∧
      (s.budget ≤ (Scheduler.pollShares less answers left r).polled ∨
        leftOf (Scheduler.pollShares less answers left r).remaining = 0) := by
  induction left generalizing r with
  | zero => exact ⟨h, .inl hturns⟩
  | succ left ih =>
    have hbudget : r.sched.budget = s.budget := by rw [budget, h.config]; rfl
    rw [Scheduler.pollShares, hbudget]
    by_cases hmore : r.polled < s.budget
    · rw [if_pos hmore]
      cases hpick : pickNextGroup less r.sched r.remaining with
      | none => exact ⟨h, .inr (pickNextGroup_eq_none less hpick)⟩
      | some g =>
        obtain ⟨hinv, hpolled⟩ := h.pollOne (pickNextGroup_eq_some less hpick)
        exact ih hinv (by omega)
    · rw [if_neg hmore]
      exact ⟨h, .inl (Nat.not_lt.mp hmore)⟩

theorem Round.Inv.runRound (hheap : Heap s.timers) (answers : Nat → Poll) :
    Round.Inv s s.queued.length answers (runRound less s answers) ∧
      (s.budget ≤ (Scheduler.runRound less s answers).polled ∨
        leftOf (Scheduler.runRound less s answers).remaining = 0) := by
  rw [Scheduler.runRound]
  have hstart : Round.Inv s s.queued.length answers
      { sched := s, remaining := fun g => (s.readyQueues g).length } := by
    refine ⟨rfl, hheap, ?_, fun g => Nat.le_refl _, Nat.le_refl _, fun _ _ => ⟨nofun, [], ?_, ?_⟩⟩
    · simp only [leftOf, queued, allGroups, flatMap_cons, flatMap_nil, length_append,
        length_nil]
      omega
    · exact (append_nil _).symm
    · intro g task htask
      rw [drop_length] at htask
      cases htask
  exact hstart.pollFloors.pollShares less (Nat.le_add_left _ _)

theorem runRound_quiet (hheap : Heap s.timers)
    (hadvanced : (runRound less s answers).advanced = false)
    (hsubmits : (runRound less s answers).sched.submits = s.submits) :
    (∀ k < min s.budget s.queued.length,
      (answers k).progress = false ∧ ∀ c ∈ (answers k).calls, c.submits = false) ∧
    (s.queued.length ≤ s.budget →
      ∃ polled : List Nat,
        (runRound less s answers).sched.log = s.log ++ polled.map (.poll · false) ∧
        ∀ task ∈ (runRound less s answers).sched.queued, task ∈ polled) := by
  obtain ⟨hinv, hexit⟩ := Round.Inv.runRound less hheap answers
  obtain ⟨hpolls, polled, hlog, hasked⟩ := hinv.quiet hadvanced hsubmits
  have htotal := hinv.total
  refine ⟨fun k hk => hpolls k (by omega), fun hfits => ⟨polled, hlog, fun task htask => ?_⟩⟩
  obtain ⟨g, -, hg⟩ := mem_flatMap.mp htask
  have hzero : (runRound less s answers).remaining g = 0 := by
    have hnone : leftOf (runRound less s answers).remaining = 0 := by omega
    rw [leftOf] at hnone
    cases g <;> omega
  apply hasked g
  rw [hzero]
  exact hg

-- Runs

/-- What every state of a run keeps. -/
structure Inv (s : Scheduler) : Prop where
  heap : Heap s.timers
  asked : s.lastIterationAdvanced = false → ∀ task ∈ s.queued, PolledSince s.log task

theorem polledSince_of_mem {log : List Happening} {polled : List Nat} (h : task ∈ polled) :
    PolledSince (log ++ polled.map (.poll · false)) task := by
  obtain ⟨before, after, rfl⟩ := append_of_mem h
  refine ⟨log ++ before.map (.poll · false), false, after.map (.poll · false), ?_, ?_⟩
  · rw [map_append, map_cons, append_assoc]
  · intro happening hin
    obtain ⟨t, -, rfl⟩ := mem_map.mp hin
    exact fun hdisturbs => nomatch hdisturbs.2

theorem afterRound_same (r : Round) :
    SameWork r.sched (afterRound r) ∧ (afterRound r).timers = r.sched.timers := by
  rw [afterRound]
  split_ifs
  · exact ⟨⟨rfl, rfl, rfl, rfl, rfl⟩, rfl⟩
  · rw [maybeDecayConsumedRuntime]
    split_ifs <;> exact ⟨⟨rfl, rfl, rfl, rfl, rfl⟩, rfl⟩

theorem Heap.handleIo (h : Heap s.timers) (io : List (List Call)) :
    Heap (s.handleIo io).timers := by
  induction io generalizing s with
  | nil => exact h
  | cons calls io ih =>
    apply ih (s := (s.note .io).callAll calls)
    apply Heap.callAll
    exact h

theorem timers_receive (s : Scheduler) (messages : List Message) :
    (messages.foldl receive s).timers = s.timers := by
  induction messages generalizing s with
  | nil => rfl
  | cons m messages ih =>
    rw [foldl_cons, ih, receive]
    split <;> rfl

theorem Heap.runHook (h : Heap s.timers) (i : Iteration) :
    Heap (s.runHook i).timers := by
  rw [Scheduler.runHook]
  split
  · exact Heap.callAll h _
  · exact Heap.callAll h _

variable {t : Scheduler}

variable {i : Iteration}

theorem runOnce_eq_some (h : runOnce less s i = some t) :
    ∃ expired fired r,
      expireTimers i.timerNow i.callbacks i.timerTurns 0 (s.handleIo i.io) =
        some (expired, fired) ∧
      r = runRound less ((expired.drained i.inbox).foldl receive expired) i.answers ∧
      t.readyQueues = ((afterRound r).runHook i).readyQueues ∧
      t.timers = ((afterRound r).runHook i).timers ∧ t.log = ((afterRound r).runHook i).log ∧
      (t.lastIterationAdvanced = false →
        i.io = [] ∧ fired = 0 ∧ expired.drained i.inbox = [] ∧ r.advanced = false ∧
          i.hookWorked = false ∧ ((afterRound r).runHook i).submits = s.submits) := by
  rw [runOnce] at h
  obtain ⟨⟨expired, fired⟩, hexpire, h⟩ := Option.bind_eq_some_iff.mp h
  cases h
  refine ⟨expired, fired, _, hexpire, rfl, rfl, rfl, rfl, fun hlast => ?_⟩
  simpa [and_assoc] using hlast

theorem runOnce_quiet (hinv : Inv s)
    (h : runOnce less s i = some t) (hlast : t.lastIterationAdvanced = false) :
    i.Quiet s ∧ (s.queued.length ≤ s.budget →
      ∃ polled : List Nat, t.log = s.log ++ polled.map (.poll · false) ∧
        ∀ task ∈ t.queued, task ∈ polled) := by
  obtain ⟨expired, fired, r, hexpire, hr, hqueues, -, hlog, hall⟩ := runOnce_eq_some less h
  obtain ⟨hio, rfl, hmessages, hround, hhook, hsubmits⟩ := hall hlast
  rw [hio] at hexpire
  obtain ⟨hsame, hnotDue⟩ := expireTimers_quiet (s := s) hinv.heap hexpire
  rw [hmessages, foldl_nil] at hr
  subst hr
  have hhooked : ∀ t : Scheduler, t.runHook i = t.callAll i.hookCalls := fun t => by
    rw [runHook, hhook]
    rfl
  rw [hhooked] at hqueues hlog hsubmits
  obtain ⟨hafter, -⟩ := afterRound_same (runRound less expired i.answers)
  have hgrown := (Round.Inv.runRound less (hinv.heap.expireTimers hexpire) i.answers).1.submits
  rw [submits_callAll, hafter.submits] at hsubmits
  rw [hsame.submits] at hgrown
  have hnone : ∀ c ∈ i.hookCalls, c.submits = false := by
    have hcount : i.hookCalls.countP Call.submits = 0 := by omega
    exact fun c hc => by simpa using countP_eq_zero.mp hcount c hc
  obtain ⟨hpolls, hasked⟩ := runRound_quiet less (hinv.heap.expireTimers hexpire) hround
    (by rw [hsame.submits]; omega)
  have hsize : expired.queued.length = s.queued.length := by rw [queued, queued, hsame.readyQueues]
  have hbudget : expired.budget = s.budget := by rw [budget, budget, hsame.config]
  rw [hsize, hbudget] at hpolls hasked
  refine ⟨⟨hio, hnotDue, ?_, hhook, hnone, hpolls⟩, fun hfits => ?_⟩
  · rw [drained, ← hsame.attached, ← hsame.config]
    exact hmessages
  · obtain ⟨polled, hpolled, htasks⟩ := hasked hfits
    obtain ⟨hkept, hkeptLog⟩ := callAll_quiet (s := afterRound _) hnone
    refine ⟨polled, ?_, fun task htask => htasks task ?_⟩
    · rw [hlog, hkeptLog, hafter.log, hpolled, hsame.log]
    · rw [queued, hqueues, hkept, hafter.readyQueues] at htask
      exact htask

/-- Every step keeps the timers a heap and no disturbed task queued unpolled. -/
theorem Inv.step {a : Action} (hinv : Inv s) (hkept : s.Kept a)
    (h : step less s a = some t) : Inv t := by
  cases a with
  | runOnce i =>
    refine ⟨?_, fun hlast task htask => ?_⟩
    · obtain ⟨expired, fired, r, hexpire, rfl, -, htimers, -, -⟩ := runOnce_eq_some less h
      rw [htimers]
      apply Heap.runHook
      rw [(afterRound_same _).2]
      refine (Round.Inv.runRound less ?_ i.answers).1.heap
      rw [timers_receive]
      exact (hinv.heap.handleIo i.io).expireTimers hexpire
    · obtain ⟨hquiet, hasked⟩ := runOnce_quiet less hinv h hlast
      obtain ⟨polled, hlog, htasks⟩ := hasked (hkept hquiet)
      rw [hlog]
      exact polledSince_of_mem (htasks task htask)
  | outside c =>
    cases h
    refine ⟨Heap.callAll hinv.heap [c], fun hlast => ?_⟩
    have hsame : (s.call c).lastIterationAdvanced = s.lastIterationAdvanced := by
      cases c with
      | cancelTimer id => rw [call, cancelTimer]; split <;> rfl
      | _ => rfl
    rw [hsame] at hlast
    have hnone : c.submits = false := by
      cases hc : c.submits with
      | false => rfl
      | true => cases (hkept hc).symm.trans hlast
    have hcalls : ∀ c' ∈ [c], c'.submits = false := by simpa using hnone
    obtain ⟨hqueues, hlog⟩ := callAll_quiet (s := s) hcalls
    change (s.call c).readyQueues = s.readyQueues at hqueues
    change (s.call c).log = s.log at hlog
    rw [queued, hqueues, hlog]
    exact hinv.asked hlast

theorem Inv.safeBlock (hinv : Inv s) (now : Nat) (pending : Bool) :
    s.SafeBlock now pending := by
  intro hblock
  have htimeout : s.blockMs now pending = s.idleTimeoutMs now := by
    rw [blockMs] at hblock ⊢
    split_ifs at hblock ⊢
    · exact absurd rfl hblock
    · rfl
  rw [htimeout] at hblock ⊢
  rw [idleTimeoutMs] at hblock ⊢
  split_ifs at hblock ⊢ with hready
  · exact absurd rfl hblock
  · refine ⟨fun task htask => ?_, ?_⟩
    · refine hinv.asked ?_ task htask
      cases hlast : s.lastIterationAdvanced with
      | false => rfl
      | true => exact absurd ⟨ne_nil_of_mem htask, hlast⟩ hready
    · have hheap := hinv.heap
      cases htimers : s.timers with
      | nil => nofun
      | cons top rest =>
        rw [htimers] at hheap hblock
        intro timer htimer
        have htop := hheap.top_le htimer
        dsimp only at hblock ⊢
        split_ifs at hblock ⊢ with hdue
        · exact absurd rfl hblock
        · have hmod := Nat.mod_le (top.deadline - now + 999999) (2 ^ 64)
          omega

/-- **The reactor does not sleep on work.**  In every run whose quiet iterations find no more tasks
    than the budget, and whose submissions between two iterations come after one that was not
    quiet, every block is safe. -/
theorem sleeps_safely (config : SchedulerConfig) (attached : Bool) (handlers : List Nat)
    {s : Scheduler} (hreach : Reach (step less) Kept (create config attached handlers) s)
    (now : Nat) (pending : Bool) : s.SafeBlock now pending := by
  have hinv : Inv s := hreach.invariant ⟨List.Pairwise.nil, nofun⟩ fun a hinv hkept h =>
    Inv.step less hinv hkept h
  exact hinv.safeBlock now pending

end

/-- The comparison of two quotients, where the `double`s are exact. -/
def lessExact (consumed share consumed' share' : Nat) : Bool :=
  consumed * share' < consumed' * share

/-- Tasks of two groups are parked, and the reactor sleeps until a timer 4 ms away. -/
theorem sleeps_safely_parked : ∃ s, runList (step lessExact)
    [.outside (.submit .foreground), .outside (.submit .maintenance), .outside (.submitAt 4000000),
      .runOnce {}, .runOnce {}] (create {} false []) = some s ∧
      s.blockMs 0 false = 4 ∧ s.queued = [0, 1] ∧ s.SafeBlock 0 false := by
  have hquiet (s : Scheduler) (h : s.queued.length ≤ s.budget) : s.Kept (.runOnce {}) := fun _ => h
  refine ⟨_, rfl, by decide, by decide, ?_⟩
  refine sleeps_safely lessExact {} false [] ?_ 0 false
  refine .tail (.tail (.tail (.tail (.tail .refl
    ⟨.outside (.submit .foreground), fun _ => rfl, rfl⟩)
    ⟨.outside (.submit .maintenance), fun _ => rfl, rfl⟩)
    ⟨.outside (.submitAt 4000000), fun _ => rfl, rfl⟩)
    ⟨.runOnce {}, hquiet _ (by decide), rfl⟩) ⟨.runOnce {}, hquiet _ (by decide), rfl⟩

/-- The reactor would block, and a queued task has never been polled. -/
def sleepsOn (task : Nat) (s : Scheduler) : Bool :=
  s.blockMs 0 false ≠ 0 && s.queued.contains task && !s.log.contains (.poll task false) &&
    !s.log.contains (.poll task true)

theorem not_safeBlock (h : sleepsOn task s = true) :
    ¬ s.SafeBlock 0 false := by
  simp only [sleepsOn, Bool.and_eq_true, Bool.not_eq_true', decide_eq_true_eq,
    contains_eq_mem, decide_eq_false_iff_not] at h
  obtain ⟨⟨⟨hblock, hqueued⟩, hfalse⟩, htrue⟩ := h
  intro hsafe
  obtain ⟨before, b, after, hlog, -⟩ := (hsafe hblock).1 task hqueued
  have hin : .poll task b ∈ s.log := hlog ▸ mem_append_right _ mem_cons_self
  cases b with
  | false => exact hfalse hin
  | true => exact htrue hin

theorem reach_sleepsOn (actions : List Action) (task : Nat)
    (h : (runList (guardStep (fun _ _ => true) (step lessExact)) actions
      (create {} false [])).any (sleepsOn task) = true) :
    ∃ s, Reach (step lessExact) (fun _ _ => True) (create {} false []) s ∧
      ¬ s.SafeBlock 0 false := by
  have hrun : ∃ s, Reach (step lessExact) (fun _ _ => True) (create {} false []) s ∧
      sleepsOn task s = true :=
    exists_reach_of_runList (fun _ _ => true) (fun _ _ _ => trivial) actions _ _ h
  obtain ⟨s, hreach, hs⟩ := hrun
  exact ⟨s, hreach, not_safeBlock hs⟩

/-- Of 65 tasks the reactor polls 64, and then it sleeps on the last one, which has never been
    polled.  The same happens to a task that comes after a quiet iteration. -/
theorem sleeps_on_unpolled :
    (∃ s, Reach (step lessExact) (fun _ _ => True) (create {} false []) s ∧
      ¬ s.SafeBlock 0 false) ∧
    ∃ s, Reach (step lessExact) (fun _ _ => True) (create {} false []) s ∧
      ¬ s.SafeBlock 0 false :=
  ⟨reach_sleepsOn (List.replicate 65 (.outside (.submit .foreground)) ++ [.runOnce {}]) 64
      (by decide +kernel),
    reach_sleepsOn [.runOnce {}, .outside (.submit .system)] 0 (by decide +kernel)⟩

end Scheduler

end Kds.Sched
