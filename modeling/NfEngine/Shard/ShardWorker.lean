-- SUMMARY: The loop of a ShardWorker at the level of its program points, and when its wait loses no wakeup.
import NfEngine.Lib.Transition

/-!
# The shard worker

The thread of a shard waits on its condition variable until the next tick, takes at
most one event, handles it, executes the actions that were committed, and ticks.
`enqueueEvent` pushes under the mutex and notifies after it has released it.

The wait has no predicate, so a notification has an effect only when it finds the
worker waiting. A notification that comes while the worker handles an event is lost,
and with it the event waits for the next tick. `Covered` says which notifications
may come when: with them, the queued events never outnumber the notifications to
come and the wakeup under way.

A step under the mutex is one step here, since the queue is touched under it only:
taking the mutex and starting to wait, and waking up with the mutex and taking an
event.
-/

namespace NfEngine

open Lib.Transition

/-- `m_tickInterval`, in milliseconds. -/
def tickInterval : ℕ := 1500

/-- Where the thread of a shard is in `processPacket`. -/
inductive ShardWorker.Pc (ε : Type*) where
  /-- The thread has not started. -/
  | idle
  /-- At the head of the loop. -/
  | top
  /-- In `wait_until`. -/
  | blocked
  /-- Notified or timed out, on its way to the mutex. -/
  | woken
  /-- It has released the mutex, with the event it took. -/
  | taken (event : Option ε)
  /-- In the loop over the actions; `now` is the time it read before. -/
  | acting (now : ℕ)
  | stopped
  deriving DecidableEq, Repr

/-- What a shard has done: handled an event, which committed actions, or executed an
    action. -/
inductive ShardWorker.Work (ε α : Type*) where
  | handled (event : ε) (committed : List α)
  | executed (action : α)
  deriving DecidableEq, Repr

open ShardWorker in
/-- A worker with the calls that are about to notify it, `notifying` of them from
    `enqueueEvent` and `stopping` from `stop`. `log` records its work. -/
structure ShardWorker (ε α : Type*) where
  running : Bool
  eventQueue : List ε
  actionQueue : List α
  clock : ℕ
  nextTick : ℕ
  pc : Pc ε
  notifying : ℕ
  stopping : ℕ
  log : List (Work ε α)
  deriving DecidableEq, Repr

namespace ShardWorker

variable {ε α : Type*}

def init (ε α : Type*) : ShardWorker ε α := ⟨false, [], [], 0, 0, .idle, 0, 0, []⟩

inductive Act (ε α : Type*) where
  /-- `processPacket` up to its loop. -/
  | start
  /-- The loop condition, and then `wait_until`. -/
  | loop
  /-- `wait_until` returns without a notification. -/
  | wake
  /-- With the mutex, the test of `m_running` and the removal of an event. -/
  | take
  /-- `handleEvent`, which commits actions. -/
  | handle (committed : List α)
  /-- One round of the loop over the actions. -/
  | act
  | tick
  /-- `enqueueEvent` up to the end of its critical section. -/
  | push (event : ε)
  /-- `notify_one` in `enqueueEvent`. -/
  | notify
  /-- The store of `stop`. -/
  | stop
  /-- `notify_one` in `stop`. -/
  | stopNotify
  /-- Time passes. -/
  | pass (later : ℕ)
  deriving DecidableEq, Repr

/-! ## Steps -/

/-- `notify_one`: the worker is the only thread that waits. -/
def notified : Pc ε → Pc ε
  | .blocked => .woken
  | pc => pc

def take (s : ShardWorker ε α) : ShardWorker ε α :=
  if !s.running then
    { s with pc := .stopped }
  else
    match s.eventQueue with
    | [] => { s with pc := .taken none }
    | event :: rest => { s with eventQueue := rest, pc := .taken (some event) }

/-- The clock is read before the event is handled. `enqueueAction` notifies the
    thread that calls it, which does not wait. -/
def handleEvent (s : ShardWorker ε α) (committed : List α) : Option (ShardWorker ε α) :=
  match s.pc with
  | .taken (some event) =>
    some { s with
      actionQueue := s.actionQueue ++ committed, pc := .acting s.clock,
      log := s.log ++ [.handled event committed] }
  | .taken none => if committed.isEmpty then some { s with pc := .acting s.clock } else none
  | _ => none

def executeAction (s : ShardWorker ε α) : Option (ShardWorker ε α) :=
  match s.pc, s.actionQueue with
  | .acting _, action :: rest =>
    some { s with actionQueue := rest, log := s.log ++ [.executed action] }
  | _, _ => none

/-- `m_nextTick` after the tick handling of an iteration. -/
def nextTickAfter (now nextTick : ℕ) : ℕ :=
  if nextTick ≤ now then
    if nextTick + tickInterval + tickInterval < now then now + tickInterval
    else nextTick + tickInterval
  else
    nextTick

def endIteration (s : ShardWorker ε α) : Option (ShardWorker ε α) :=
  match s.pc, s.actionQueue with
  | .acting now, [] => some { s with nextTick := nextTickAfter now s.nextTick, pc := .top }
  | _, _ => none

def step [DecidableEq ε] (s : ShardWorker ε α) : Act ε α → Option (ShardWorker ε α)
  | .start =>
    if s.pc = .idle then
      some { s with running := true, nextTick := s.clock + tickInterval, pc := .top }
    else none
  | .loop =>
    if s.pc = .top then some { s with pc := if s.running then .blocked else .stopped } else none
  | .wake => if s.pc = .blocked then some { s with pc := .woken } else none
  | .take => if s.pc = .woken then some s.take else none
  | .handle committed => s.handleEvent committed
  | .act => s.executeAction
  | .tick => s.endIteration
  | .push event =>
    some { s with eventQueue := s.eventQueue ++ [event], notifying := s.notifying + 1 }
  | .notify =>
    if 0 < s.notifying then
      some { s with pc := notified s.pc, notifying := s.notifying - 1 }
    else none
  | .stop => some { s with running := false, stopping := s.stopping + 1 }
  | .stopNotify =>
    if 0 < s.stopping then
      some { s with pc := notified s.pc, stopping := s.stopping - 1 }
    else none
  | .pass later => if s.clock ≤ later then some { s with clock := later } else none

/-- What a step does, with the guards it has passed. -/
inductive Moves (s : ShardWorker ε α) : Act ε α → ShardWorker ε α → Prop
  | start (hpc : s.pc = .idle) :
    Moves s .start { s with running := true, nextTick := s.clock + tickInterval, pc := .top }
  | wait (hpc : s.pc = .top) (hrunning : s.running = true) : Moves s .loop { s with pc := .blocked }
  | leave (hpc : s.pc = .top) (hrunning : s.running = false) :
    Moves s .loop { s with pc := .stopped }
  | wake (hpc : s.pc = .blocked) : Moves s .wake { s with pc := .woken }
  | takeStopped (hpc : s.pc = .woken) (hrunning : s.running = false) :
    Moves s .take { s with pc := .stopped }
  | takeNone (hpc : s.pc = .woken) (hqueue : s.eventQueue = []) :
    Moves s .take { s with pc := .taken none }
  | takeSome {event : ε} {rest : List ε} (hpc : s.pc = .woken) (hqueue : s.eventQueue = event :: rest) :
    Moves s .take { s with eventQueue := rest, pc := .taken (some event) }
  | handleNone (hpc : s.pc = .taken none) : Moves s (.handle []) { s with pc := .acting s.clock }
  | handleSome {event : ε} (hpc : s.pc = .taken (some event)) (committed : List α) :
    Moves s (.handle committed) { s with
      actionQueue := s.actionQueue ++ committed, pc := .acting s.clock,
      log := s.log ++ [.handled event committed] }
  | act {now : ℕ} {action : α} {rest : List α} (hpc : s.pc = .acting now)
    (hqueue : s.actionQueue = action :: rest) :
    Moves s .act { s with actionQueue := rest, log := s.log ++ [.executed action] }
  | tick {now : ℕ} (hpc : s.pc = .acting now) (hqueue : s.actionQueue = []) :
    Moves s .tick { s with nextTick := nextTickAfter now s.nextTick, pc := .top }
  | push (event : ε) :
    Moves s (.push event)
      { s with eventQueue := s.eventQueue ++ [event], notifying := s.notifying + 1 }
  | notify (hnotifying : 0 < s.notifying) :
    Moves s .notify { s with pc := notified s.pc, notifying := s.notifying - 1 }
  | stop : Moves s .stop { s with running := false, stopping := s.stopping + 1 }
  | stopNotify : Moves s .stopNotify { s with pc := notified s.pc, stopping := s.stopping - 1 }
  | pass (later : ℕ) : Moves s (.pass later) { s with clock := later }

section Inversion

variable {s s' : ShardWorker ε α}

theorem moves_take (hpc : s.pc = .woken) : Moves s .take s.take := by
  unfold take
  split
  next hrunning => exact .takeStopped hpc (by simpa using hrunning)
  next =>
    split
    next hqueue => exact .takeNone hpc hqueue
    next hqueue => exact .takeSome hpc hqueue

theorem moves_handleEvent {committed : List α} (h : s.handleEvent committed = some s') :
    Moves s (.handle committed) s' := by
  unfold handleEvent at h
  split at h
  next hpc =>
    cases h
    exact .handleSome hpc committed
  next hpc =>
    split at h
    next hempty =>
      cases h
      rw [List.isEmpty_iff.mp hempty]
      exact .handleNone hpc
    next => cases h
  next => cases h

theorem moves_executeAction (h : s.executeAction = some s') : Moves s .act s' := by
  unfold executeAction at h
  split at h
  next hpc hqueue =>
    cases h
    exact .act hpc hqueue
  next => cases h

theorem moves_endIteration (h : s.endIteration = some s') : Moves s .tick s' := by
  unfold endIteration at h
  split at h
  next hpc hqueue =>
    cases h
    exact .tick hpc hqueue
  next => cases h

theorem moves_of_step [DecidableEq ε] {a : Act ε α} (h : s.step a = some s') : Moves s a s' := by
  cases a with
  | start =>
    obtain ⟨hpc, rfl⟩ : s.pc = .idle ∧ _ = s' := by simpa [step] using h
    exact .start hpc
  | loop =>
    obtain ⟨hpc, rfl⟩ : s.pc = .top ∧ _ = s' := by simpa [step] using h
    split
    next hrunning => exact .wait hpc hrunning
    next hrunning => exact .leave hpc (by simpa using hrunning)
  | wake =>
    obtain ⟨hpc, rfl⟩ : s.pc = .blocked ∧ _ = s' := by simpa [step] using h
    exact .wake hpc
  | take =>
    obtain ⟨hpc, rfl⟩ : s.pc = .woken ∧ _ = s' := by simpa [step] using h
    exact moves_take hpc
  | handle committed => exact moves_handleEvent h
  | act => exact moves_executeAction h
  | tick => exact moves_endIteration h
  | push event =>
    cases h
    exact .push event
  | notify =>
    obtain ⟨hnotifying, rfl⟩ : 0 < s.notifying ∧ _ = s' := by simpa [step] using h
    exact .notify hnotifying
  | stop =>
    cases h
    exact .stop
  | stopNotify =>
    obtain ⟨_, rfl⟩ : 0 < s.stopping ∧ _ = s' := by simpa [step] using h
    exact .stopNotify
  | pass later =>
    obtain ⟨_, rfl⟩ : s.clock ≤ later ∧ _ = s' := by simpa [step] using h
    exact .pass later

end Inversion

/-! ## Lost wakeups -/

/-- A worker that waits has no event, or somebody is about to notify it. -/
def NoLostWakeup (s : ShardWorker ε α) : Prop :=
  s.pc = .blocked → s.eventQueue ≠ [] → 0 < s.notifying + s.stopping

/-- The wakeup under way. -/
def Pc.wakeup : Pc ε → ℕ
  | .woken => 1
  | _ => 0

/-- A notification of `enqueueEvent` finds the worker waiting, or the events that are
    queued can do without it: they are no more than the other notifications to come
    and the wakeup under way. -/
def Covered (s : ShardWorker ε α) : Act ε α → Prop
  | .notify => s.pc = .blocked ∨ s.eventQueue.length + 1 ≤ s.notifying + s.pc.wakeup
  | _ => True

instance [DecidableEq ε] (s : ShardWorker ε α) : DecidablePred s.Covered
  | .notify =>
    inferInstanceAs (Decidable (s.pc = .blocked ∨ s.eventQueue.length + 1 ≤ s.notifying + s.pc.wakeup))
  | .start | .loop | .wake | .take | .handle _ | .act | .tick | .push _ | .stop | .stopNotify
  | .pass _ => isTrue trivial

/-- The queued events are no more than the notifications to come and the wakeup under
    way. -/
def Bounded (s : ShardWorker ε α) : Prop :=
  s.pc = .stopped ∨ s.eventQueue.length ≤ s.notifying + s.pc.wakeup

theorem Bounded.noLostWakeup {s : ShardWorker ε α} (h : s.Bounded) : s.NoLostWakeup := by
  intro hpc hqueue
  rcases h with hstopped | hle
  · rw [hpc] at hstopped
    cases hstopped
  · have hpos : 0 < s.eventQueue.length := List.length_pos_of_ne_nil hqueue
    rw [hpc] at hle
    simp only [Pc.wakeup] at hle
    omega

theorem notified_of_ne {pc : Pc ε} (h : pc ≠ .blocked) : notified pc = pc := by
  cases pc with
  | blocked => exact absurd rfl h
  | idle | top | woken | taken | acting | stopped => rfl

theorem wakeup_le_notified (pc : Pc ε) : pc.wakeup ≤ (notified pc).wakeup := by
  cases pc <;> simp [Pc.wakeup, notified]

theorem bounded_step [DecidableEq ε] {s s' : ShardWorker ε α} {a : Act ε α} (h : s.Bounded)
    (hok : s.Covered a) (hstep : s.step a = some s') : s'.Bounded := by
  by_cases hstopped : s.pc = .stopped
  · cases moves_of_step hstep with
    | push | stop | pass => exact .inl hstopped
    | notify | stopNotify => exact .inl (by rw [hstopped]; rfl)
    | start hpc | wait hpc | leave hpc | wake hpc | takeStopped hpc | takeNone hpc | takeSome hpc
    | handleNone hpc | handleSome hpc | act hpc | tick hpc =>
      rw [hstopped] at hpc
      cases hpc
  have hle := h.resolve_left hstopped
  cases moves_of_step hstep with
  | leave | takeStopped => exact .inl rfl
  | start hpc | wait hpc | handleNone hpc | handleSome hpc | act hpc | tick hpc =>
    rw [hpc] at hle
    exact .inr (by simpa [Pc.wakeup, hpc] using hle)
  | wake hpc =>
    rw [hpc] at hle
    exact .inr (Nat.le_succ_of_le hle)
  | takeNone hpc hqueue => exact .inr (by simp [hqueue])
  | takeSome hpc hqueue =>
    -- the event that is taken uses up the wakeup
    rw [hpc, hqueue] at hle
    exact .inr (Nat.le_of_succ_le_succ hle)
  | push event =>
    refine .inr ?_
    simp only [List.length_append, List.length_singleton]
    omega
  | notify hnotifying =>
    refine .inr ?_
    rcases hok with hblocked | hcovered
    · -- the notification becomes the wakeup
      simp only [hblocked, notified, Pc.wakeup] at hle ⊢
      omega
    · have hmono := wakeup_le_notified s.pc
      simp only
      omega
  | stopNotify =>
    have hmono := wakeup_le_notified s.pc
    exact .inr (hle.trans (Nat.add_le_add_left hmono _))
  | stop | pass => exact .inr hle

/-- In every run whose notifications are all covered, the worker never waits with an
    event in its queue and nobody to notify it. -/
theorem noLostWakeup_of_covered [DecidableEq ε] {s : ShardWorker ε α} {acts : List (Act ε α)}
    (hok : Along step Covered (init ε α) acts) (hrun : run step (init ε α) acts = some s) :
    s.NoLostWakeup := by
  have hinit : (init ε α).Bounded := .inr (Nat.zero_le _)
  exact (run_induct (fun _ _ _ h hc hstep => bounded_step h hc hstep) hinit hok hrun).noLostWakeup

/-- An event is taken in a wakeup and the next one pushed once the worker waits
    again. -/
def quietActs : List (Act ℕ ℕ) :=
  [.start, .loop, .push 1, .notify, .take, .handle [7], .act, .tick, .loop, .push 2]

theorem noLostWakeup_quiet :
    ∃ s, run step (init ℕ ℕ) quietActs = some s ∧ s.pc = .blocked ∧ s.eventQueue = [2] ∧
      s.NoLostWakeup := by
  have hrun : run step (init ℕ ℕ) quietActs = some _ := rfl
  exact ⟨_, rfl, rfl, rfl, noLostWakeup_of_covered (by decide) hrun⟩

/-- A second event is pushed, and its notification given, while the worker handles
    the first. -/
def burstActs : List (Act ℕ ℕ) :=
  [.start, .loop, .push 1, .notify, .take, .push 2, .notify, .handle [], .tick, .loop]

/-- The worker waits for its next tick, 1500 ms away, with the second event in its
    queue. -/
theorem lostWakeup_burst :
    ∃ s, run step (init ℕ ℕ) burstActs = some s ∧ s.pc = .blocked ∧ s.eventQueue = [2] ∧
      s.nextTick = s.clock + 1500 ∧ ¬ s.NoLostWakeup := by
  refine ⟨_, rfl, rfl, rfl, rfl, fun h => ?_⟩
  exact absurd (h rfl (by simp)) (by decide)

/-! ## Uncovered notifications

After a notification that is not covered, the schedule in which the worker goes on
alone ends in a lost wakeup. -/

section Uncovered

variable [DecidableEq ε] {s s' : ShardWorker ε α}

/-- Some continuation loses a wakeup. -/
def MayLose (s : ShardWorker ε α) : Prop :=
  ∃ acts t, run step s acts = some t ∧ ¬ t.NoLostWakeup

theorem MayLose.of_step {a : Act ε α} (hstep : s.step a = some s') (h : s'.MayLose) : s.MayLose := by
  obtain ⟨acts, t, hrun, hlost⟩ := h
  exact ⟨a :: acts, t, run_cons_eq_some.mpr ⟨s', hstep, hrun⟩, hlost⟩

theorem mayLose_of_top (hpc : s.pc = .top) (hrunning : s.running = true) (hqueue : s.eventQueue ≠ [])
    (hnotify : s.notifying + s.stopping = 0) : s.MayLose := by
  refine ⟨[.loop], { s with pc := .blocked }, by simp [run, step, hpc, hrunning], fun h => ?_⟩
  exact (h rfl hqueue).ne' hnotify

/-- The worker executes what is committed and ends its iteration. -/
theorem mayLose_of_acting {now : ℕ} (hpc : s.pc = .acting now) (hrunning : s.running = true)
    (hqueue : s.eventQueue ≠ []) (hnotify : s.notifying + s.stopping = 0) : s.MayLose := by
  induction hactions : s.actionQueue generalizing s with
  | nil =>
    refine .of_step (a := .tick) (by rw [step, endIteration, hpc, hactions]) ?_
    exact mayLose_of_top rfl hrunning hqueue hnotify
  | cons action rest ih =>
    have hact : s.step .act =
        some { s with actionQueue := rest, log := s.log ++ [.executed action] } := by
      rw [step, executeAction, hpc, hactions]
    exact .of_step hact (ih hpc hrunning hqueue hnotify rfl)

theorem mayLose_of_taken {event : Option ε} (hpc : s.pc = .taken event) (hrunning : s.running = true)
    (hqueue : s.eventQueue ≠ []) (hnotify : s.notifying + s.stopping = 0) : s.MayLose := by
  cases event with
  | none =>
    refine .of_step (a := .handle []) (by simp only [step, handleEvent, hpc]; rfl) ?_
    exact mayLose_of_acting rfl hrunning hqueue hnotify
  | some event =>
    refine .of_step (a := .handle []) (by simp only [step, handleEvent, hpc]; rfl) ?_
    exact mayLose_of_acting rfl hrunning hqueue hnotify

/-- A worker that is not waiting and has an event more than the wakeup under way. -/
theorem mayLose_of_lt (hpc : s.pc ≠ .blocked) (hstopped : s.pc ≠ .stopped)
    (hrunning : s.running = true ∨ s.pc = .idle) (hqueue : s.pc.wakeup < s.eventQueue.length)
    (hnotify : s.notifying + s.stopping = 0) : s.MayLose := by
  have hne : s.eventQueue ≠ [] := List.ne_nil_of_length_pos (Nat.zero_lt_of_lt hqueue)
  cases h : s.pc with
  | blocked => exact absurd h hpc
  | stopped => exact absurd h hstopped
  | idle =>
    refine .of_step (a := .start) (by rw [step, if_pos h]) ?_
    exact mayLose_of_top rfl rfl hne hnotify
  | top => exact mayLose_of_top h (hrunning.resolve_right (by simp [h])) hne hnotify
  | taken event => exact mayLose_of_taken h (hrunning.resolve_right (by simp [h])) hne hnotify
  | acting now => exact mayLose_of_acting h (hrunning.resolve_right (by simp [h])) hne hnotify
  | woken =>
    have hrun : s.running = true := hrunning.resolve_right (by simp [h])
    rw [h] at hqueue
    cases hevents : s.eventQueue with
    | nil => exact absurd hevents hne
    | cons event rest =>
      have htake : s.step .take =
          some { s with eventQueue := rest, pc := .taken (some event) } := by
        simp [step, h, take, hrun, hevents]
      refine .of_step htake (mayLose_of_taken rfl hrun ?_ hnotify)
      rw [hevents] at hqueue
      exact List.ne_nil_of_length_pos (Nat.lt_of_succ_lt_succ hqueue)

/-- The notifications that are left come before the worker waits, and have no
    effect. -/
theorem mayLose_of_notifying_lt (hpc : s.pc ≠ .blocked) (hstopped : s.pc ≠ .stopped)
    (hrunning : s.running = true ∨ s.pc = .idle) (hstopping : s.stopping = 0)
    (hlt : s.notifying + s.pc.wakeup < s.eventQueue.length) : s.MayLose := by
  induction hn : s.notifying generalizing s with
  | zero =>
    rw [hn, Nat.zero_add] at hlt
    exact mayLose_of_lt hpc hstopped hrunning hlt (by rw [hn, hstopping])
  | succ n ih =>
    have hnotify : s.step .notify = some { s with notifying := n } := by
      simp [step, hn, notified_of_ne hpc]
    refine .of_step hnotify (ih hpc hstopped hrunning hstopping ?_ rfl)
    simp only
    omega

/-- A notification that is not covered may be followed by a lost wakeup, unless the
    worker is being stopped. -/
theorem mayLose_of_not_covered (hstep : s.step .notify = some s') (hnot : ¬ s.Covered .notify)
    (hstopped : s.pc ≠ .stopped) (hrunning : s.running = true ∨ s.pc = .idle)
    (hstopping : s.stopping = 0) : s'.MayLose := by
  simp only [Covered, not_or, Nat.not_le] at hnot
  obtain ⟨hpos, rfl⟩ : 0 < s.notifying ∧ _ = s' := by simpa [step] using hstep
  rw [notified_of_ne hnot.1]
  refine mayLose_of_notifying_lt hnot.1 hstopped hrunning hstopping ?_
  simp only
  omega

end Uncovered

end ShardWorker

end NfEngine
