-- SUMMARY: A shard worker handles its events in the order of their pushes, and executes what an event commits before the next event.
import NfEngine.Shard.ShardWorker

/-!
# The order of a shard's work

`events` are the events that have been pushed to a shard: those it has handled, the
one it has taken and those in its queue. A push appends to it and no other step
changes it. The log of a shard is such that whenever an event is handled, all the
actions that were committed before have been executed.
-/

namespace NfEngine.ShardWorker

variable {ε α : Type*}

/-! ## Events -/

@[simp] def Work.event : Work ε α → Option ε
  | .handled event _ => some event
  | .executed _ => none

/-- The events that have been handled, in order. -/
def handledEvents (log : List (Work ε α)) : List ε := log.filterMap Work.event

/-- The event that the worker has taken and not handled yet. -/
@[simp] def Pc.event : Pc ε → List ε
  | .taken (some event) => [event]
  | _ => []

/-- The events that have been pushed, oldest first. -/
def events (s : ShardWorker ε α) : List ε := handledEvents s.log ++ (s.pc.event ++ s.eventQueue)

/-- The event that an action brings. -/
def Act.event : Act ε α → List ε
  | .push event => [event]
  | _ => []

theorem event_notified (pc : Pc ε) : (notified pc).event = pc.event := by
  cases pc <;> rfl

/-! ## Actions -/

@[simp] def Work.commits : Work ε α → List α
  | .handled _ committed => committed
  | .executed _ => []

@[simp] def Work.executes : Work ε α → List α
  | .handled _ _ => []
  | .executed action => [action]

def committed (log : List (Work ε α)) : List α := log.flatMap Work.commits

def executed (log : List (Work ε α)) : List α := log.flatMap Work.executes

/-- Whenever an event is handled, the actions committed before have been executed. -/
def ActionsFirst (log : List (Work ε α)) : Prop :=
  ∀ before event actions after, log = before ++ .handled event actions :: after →
    executed before = committed before

theorem ActionsFirst.concat {log : List (Work ε α)} {work : Work ε α} (h : ActionsFirst log)
    (hwork : ∀ event actions, work = .handled event actions → executed log = committed log) :
    ActionsFirst (log ++ [work]) := by
  intro before event actions after heq
  rcases List.eq_nil_or_concat after with rfl | ⟨after', last, rfl⟩
  · obtain ⟨rfl, hlast⟩ := List.append_inj' heq rfl
    exact hwork event actions (List.singleton_inj.mp hlast)
  · rw [List.concat_eq_append, ← List.cons_append, ← List.append_assoc] at heq
    exact h before event actions after' (List.append_inj' heq rfl).1

/-- What is committed and not executed yet is in the queue, and the queue is empty
    outside the loop over it. -/
structure Inv (s : ShardWorker ε α) : Prop where
  pending : committed s.log = executed s.log ++ s.actionQueue
  acting : s.actionQueue ≠ [] → ∃ now, s.pc = .acting now
  first : ActionsFirst s.log

theorem inv_init : (init ε α).Inv where
  pending := rfl
  acting hne := absurd rfl hne
  first before event actions after heq := by simp [init] at heq

/-! ## Steps -/

section Steps

variable [DecidableEq ε] {s s' : ShardWorker ε α} {a : Act ε α}

theorem events_of_step (hstep : s.step a = some s') : s'.events = s.events ++ a.event := by
  cases moves_of_step hstep with
  | takeNone hpc hqueue => simp [Act.event, events, hpc, hqueue]
  | takeSome hpc hqueue => simp [Act.event, events, hpc, hqueue]
  | handleSome hpc => simp [Act.event, events, handledEvents, hpc]
  | act hpc => simp [Act.event, events, handledEvents, hpc]
  | push event => simp [Act.event, events]
  | notify | stopNotify =>
    simp only [events, event_notified]
    exact (List.append_nil _).symm
  | start hpc | wait hpc | leave hpc | wake hpc | takeStopped hpc | handleNone hpc | tick hpc =>
    simp [Act.event, events, hpc]
  | stop | pass => simp [Act.event, events]

theorem handledEvents_of_step (hstep : s.step a = some s') :
    handledEvents s.log ⊆ handledEvents s'.log := by
  cases moves_of_step hstep with
  | handleSome | act => simp [handledEvents]
  | start | wait | leave | wake | takeStopped | takeNone | takeSome | handleNone | tick | push
  | notify | stop | stopNotify | pass => exact List.Subset.refl _

theorem stopped_of_step (hstep : s.step a = some s') (hpc : s.pc = .stopped) : s'.pc = .stopped := by
  cases moves_of_step hstep with
  | notify | stopNotify => simp [hpc, notified]
  | push | stop | pass => exact hpc
  | leave | takeStopped => rfl
  | start h | wait h | wake h | takeNone h | takeSome h | handleNone h | handleSome h | act h
  | tick h =>
    rw [hpc] at h
    cases h

omit [DecidableEq ε] in
theorem Inv.actionQueue_eq_nil (h : s.Inv) (hpc : ∀ now, s.pc ≠ .acting now) : s.actionQueue = [] := by
  by_contra hne
  obtain ⟨now, hacting⟩ := h.acting hne
  exact hpc now hacting

omit [DecidableEq ε] in
/-- A step of another kind than handling an event or executing an action. -/
theorem Inv.of_log (h : s.Inv) (hlog : s'.log = s.log) (hqueue : s'.actionQueue = s.actionQueue)
    (hpc : ∀ now, s.pc = .acting now → s'.pc = .acting now ∨ s.actionQueue = []) : s'.Inv where
  pending := by rw [hlog, hqueue]; exact h.pending
  acting hne := by
    rw [hqueue] at hne
    obtain ⟨now, hacting⟩ := h.acting hne
    exact ⟨now, (hpc now hacting).resolve_right hne⟩
  first := hlog ▸ h.first

omit [DecidableEq ε] in
theorem Inv.handleSome {event : ε} (h : s.Inv) (hpc : s.pc = .taken (some event)) (actions : List α) :
    Inv { s with
      actionQueue := s.actionQueue ++ actions, pc := .acting s.clock,
      log := s.log ++ [.handled event actions] } := by
  have hempty : s.actionQueue = [] := h.actionQueue_eq_nil (by simp [hpc])
  have hdone : committed s.log = executed s.log := by simpa [hempty] using h.pending
  refine ⟨?_, fun _ => ⟨_, rfl⟩, h.first.concat fun _ _ _ => hdone.symm⟩
  simpa [committed, executed, hempty] using hdone

omit [DecidableEq ε] in
theorem Inv.act {now : ℕ} {action : α} {rest : List α} (h : s.Inv) (hpc : s.pc = .acting now)
    (hqueue : s.actionQueue = action :: rest) :
    Inv { s with actionQueue := rest, log := s.log ++ [.executed action] } := by
  refine ⟨?_, fun _ => ⟨now, hpc⟩, h.first.concat fun event actions heq => by cases heq⟩
  simpa [committed, executed, hqueue] using h.pending

theorem Inv.step (h : s.Inv) (hstep : s.step a = some s') : s'.Inv := by
  cases moves_of_step hstep with
  | handleSome hpc actions => exact h.handleSome hpc actions
  | act hpc hqueue => exact h.act hpc hqueue
  | tick hpc hqueue => exact h.of_log rfl rfl fun _ _ => .inr hqueue
  | notify | stopNotify =>
    refine h.of_log rfl rfl fun now hacting => .inl ?_
    rw [notified_of_ne (by simp [hacting])]
    exact hacting
  | start hpc | wait hpc | leave hpc | wake hpc | takeStopped hpc | takeNone hpc | takeSome hpc
  | handleNone hpc =>
    refine h.of_log rfl rfl fun now hacting => ?_
    rw [hpc] at hacting
    cases hacting
  | push | stop | pass => exact h.of_log rfl rfl fun _ hacting => .inl hacting

end Steps

end NfEngine.ShardWorker
