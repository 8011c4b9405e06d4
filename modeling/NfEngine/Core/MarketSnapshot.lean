-- SUMMARY: marketSnapshot: promises that travel to the shards and futures that its caller waits for, across any number of concurrent calls.
import NfEngine.Execution.Action
import NfEngine.Execution.MarketContext
import NfEngine.Shard.WorkOrder

/-!
# The market snapshot

`CoreControl::marketSnapshot` makes a promise for each shard and dispatches it in an event,
then waits for the futures one after the other, at most half a second for each, and leaves
out those that are not ready. Several IPC workers may be in it at the same time, and the
shards take the events in between their other work. A shard may fulfil a promise after its
caller has given up on it; that answer belongs to the old call, and no later call sees it.

A promise is the pair of its call and its shard. The number of a call, `fulfilled`,
`skipped` and `reports` are observations. A second `set_value` would throw in the thread of
the shard, which catches nothing: the process is then `terminated`.
-/

namespace NfEngine

open Lib.Transition

/-- A promise: the call that made it, and the shard that is to fulfil it. -/
structure DumpPromise (n : ℕ) where
  call : ℕ
  shard : Fin n
  deriving DecidableEq

/-- The events of a shard: `MarketDumpReqEvent` with its promise, and the others. -/
inductive DumpEvent (n : ℕ) where
  | dump (promise : DumpPromise n)
  | other (event : Event)
  deriving DecidableEq

def DumpEvent.promise? {n : ℕ} : DumpEvent n → Option (DumpPromise n)
  | .dump promise => some promise
  | .other _ => none

/-- The shared state of a promise and its future. -/
inductive Future where
  | pending
  | ready (info : MarketInfo)
  /-- The promise was destroyed without a value, and `get` throws. -/
  | broken

instance (ctx : MarketContext) (info : MarketInfo) : Decidable (ctx.Snapshot info) :=
  inferInstanceAs (Decidable (_ ∧ _))

namespace CoreControl

/-- Where an IPC worker is in `marketSnapshot`: in the loop that dispatches, before the
    notification of the shard, or in the loop that waits, with the markets it has. -/
inductive Caller where
  | idle
  | dispatch (call i : ℕ)
  | notify (call i : ℕ)
  | wait (call i : ℕ) (markets : List MarketInfo)

/-- What a call has returned. -/
structure Report where
  call : ℕ
  markets : List MarketInfo

structure System (n m : ℕ) where
  shards : Fin n → ShardWorker (DumpEvent n) Action
  /-- The other threads that are about to notify a shard. -/
  others : Fin n → ℕ
  futures : DumpPromise n → Option Future
  callers : Fin m → Caller
  calls : ℕ
  terminated : Bool
  fulfilled : List (DumpPromise n × MarketInfo)
  skipped : List (DumpPromise n)
  reports : List Report

variable {n m : ℕ}

def init (n m : ℕ) : System n m where
  shards _ := .init (DumpEvent n) Action
  others _ := 0
  futures _ := none
  callers _ := .idle
  calls := 0
  terminated := false
  fulfilled := []
  skipped := []
  reports := []

namespace System

def setCaller (s : System n m) (j : Fin m) (caller : Caller) : System n m :=
  { s with callers := Function.update s.callers j caller }

def setShard (s : System n m) (k : Fin n) (shard : ShardWorker (DumpEvent n) Action) : System n m :=
  { s with shards := Function.update s.shards k shard }

/-! ## The callers -/

/-- One round of the first loop up to the push of the event; at its end the second loop starts. -/
def dispatch (s : System n m) (j : Fin m) : Option (System n m) :=
  match s.callers j with
  | .dispatch call i =>
    if h : i < n then
      let promise : DumpPromise n := ⟨call, i, h⟩
      ((s.shards ⟨i, h⟩).step (.push (.dump promise))).map fun shard =>
        { (s.setShard ⟨i, h⟩ shard).setCaller j (.notify call i) with
          futures := Function.update s.futures promise (some .pending) }
    else
      some (s.setCaller j (.wait call 0 []))
  | _ => none

/-- `notify_one` in `enqueueEvent`. -/
def notify (s : System n m) (j : Fin m) : Option (System n m) :=
  match s.callers j with
  | .notify call i =>
    if h : i < n then
      ((s.shards ⟨i, h⟩).step .notify).map fun shard =>
        (s.setShard ⟨i, h⟩ shard).setCaller j (.dispatch call (i + 1))
    else none
  | _ => none

/-- One round of the second loop; `timeout` says that `wait_for` gives up. -/
def await (s : System n m) (j : Fin m) (timeout : Bool) : Option (System n m) :=
  match s.callers j with
  | .wait call i markets =>
    if h : i < n then
      let promise : DumpPromise n := ⟨call, i, h⟩
      let skip := { s.setCaller j (.wait call (i + 1) markets) with skipped := s.skipped ++ [promise] }
      match s.futures promise, timeout with
      | some (.ready info), false => some (s.setCaller j (.wait call (i + 1) (markets ++ [info])))
      | some .pending, true => some skip
      | some .broken, false => some skip
      | _, _ => none
    else none
  | _ => none

def finish (s : System n m) (j : Fin m) : Option (System n m) :=
  match s.callers j with
  | .wait call i markets =>
    if i < n then none
    else some { s.setCaller j .idle with reports := s.reports ++ [⟨call, markets⟩] }
  | _ => none

/-! ## The shards -/

/-- The steps of a shard's thread other than handling a market event, of time, and of the thread
    that stops it. -/
def ofShard (shard : ShardWorker (DumpEvent n) Action) : ShardWorker.Act (DumpEvent n) Action → Bool
  | .push _ | .notify => false
  | .handle _ =>
    match shard.pc with
    | .taken (some (.dump _)) => false
    | _ => true
  | _ => true

/-- None of them brings the shard an event. -/
theorem promise_of_ofShard {shard : ShardWorker (DumpEvent n) Action}
    {a : ShardWorker.Act (DumpEvent n) Action} (h : ofShard shard a = true) :
    a.event.filterMap DumpEvent.promise? = [] := by
  cases a with
  | push event => cases h
  | _ => rfl

/-- `MarketContext::marketDumpReqEvent`: the snapshot is taken and the promise fulfilled. -/
def fulfill (ctx : Fin n → MarketContext) (s : System n m) (k : Fin n) (info : MarketInfo) :
    Option (System n m) :=
  match (s.shards k).pc with
  | .taken (some (.dump promise)) =>
    if (ctx k).Snapshot info then
      match s.futures promise with
      | some .pending =>
        ((s.shards k).step (.handle [])).map fun shard =>
          { s.setShard k shard with
            futures := Function.update s.futures promise (some (.ready info))
            fulfilled := s.fulfilled ++ [(promise, info)] }
      | _ => some { s with terminated := true }
    else none
  | _ => none

/-- What is left of a future when shard `k` is destroyed with the promises it has not fulfilled. -/
def abandoned (s : System n m) (k : Fin n) (promise : DumpPromise n) : Option Future :=
  match s.futures promise with
  | some .pending => if promise.shard = k then some .broken else some .pending
  | future => future

/-- The destruction of a shard that has stopped. -/
def abandon (s : System n m) (k : Fin n) : Option (System n m) :=
  if (s.shards k).pc = .stopped then some { s with futures := s.abandoned k } else none

end System

inductive Act (n m : ℕ) where
  | begin (j : Fin m)
  | dispatch (j : Fin m)
  | notify (j : Fin m)
  | await (j : Fin m) (timeout : Bool)
  | finish (j : Fin m)
  | shard (k : Fin n) (a : ShardWorker.Act (DumpEvent n) Action)
  | fulfill (k : Fin n) (info : MarketInfo)
  | abandon (k : Fin n)
  /-- Another thread pushes an event. -/
  | otherPush (k : Fin n) (event : Event)
  | otherNotify (k : Fin n)

def step (ctx : Fin n → MarketContext) (s : System n m) (a : Act n m) : Option (System n m) :=
  if s.terminated then
    none
  else
    match a with
    | .begin j =>
      match s.callers j with
      | .idle => some { s.setCaller j (.dispatch s.calls 0) with calls := s.calls + 1 }
      | _ => none
    | .dispatch j => s.dispatch j
    | .notify j => s.notify j
    | .await j timeout => s.await j timeout
    | .finish j => s.finish j
    | .shard k a =>
      if System.ofShard (s.shards k) a then ((s.shards k).step a).map fun shard => s.setShard k shard
      else none
    | .fulfill k info => s.fulfill ctx k info
    | .abandon k => s.abandon k
    | .otherPush k event =>
      ((s.shards k).step (.push (.other event))).map fun shard =>
        { s.setShard k shard with others := Function.update s.others k (s.others k + 1) }
    | .otherNotify k =>
      if 0 < s.others k then
        ((s.shards k).step .notify).map fun shard =>
          { s.setShard k shard with others := Function.update s.others k (s.others k - 1) }
      else none

/-! ## Moves -/

/-- What a step does, with the guards it has passed. -/
inductive Moves (ctx : Fin n → MarketContext) (s : System n m) : Act n m → System n m → Prop
  | begin {j : Fin m} (hcaller : s.callers j = .idle) :
    Moves ctx s (.begin j) { s.setCaller j (.dispatch s.calls 0) with calls := s.calls + 1 }
  | dispatch {j : Fin m} {call : ℕ} {k : Fin n} {shard : ShardWorker (DumpEvent n) Action}
    (hcaller : s.callers j = .dispatch call k)
    (hshard : (s.shards k).step (.push (.dump ⟨call, k⟩)) = some shard) :
    Moves ctx s (.dispatch j) { (s.setShard k shard).setCaller j (.notify call k) with
      futures := Function.update s.futures ⟨call, k⟩ (some .pending) }
  | turn {j : Fin m} {call i : ℕ} (hcaller : s.callers j = .dispatch call i) (hi : n ≤ i) :
    Moves ctx s (.dispatch j) (s.setCaller j (.wait call 0 []))
  | notify {j : Fin m} {call : ℕ} {k : Fin n} {shard : ShardWorker (DumpEvent n) Action}
    (hcaller : s.callers j = .notify call k) (hshard : (s.shards k).step .notify = some shard) :
    Moves ctx s (.notify j) ((s.setShard k shard).setCaller j (.dispatch call (k + 1)))
  | get {j : Fin m} {call : ℕ} {k : Fin n} {markets : List MarketInfo} {info : MarketInfo}
    (hcaller : s.callers j = .wait call k markets)
    (hfuture : s.futures ⟨call, k⟩ = some (.ready info)) :
    Moves ctx s (.await j false) (s.setCaller j (.wait call (k + 1) (markets ++ [info])))
  | skip {j : Fin m} {timeout : Bool} {call : ℕ} {k : Fin n} {markets : List MarketInfo}
    (hcaller : s.callers j = .wait call k markets) :
    Moves ctx s (.await j timeout) { s.setCaller j (.wait call (k + 1) markets) with
      skipped := s.skipped ++ [⟨call, k⟩] }
  | finish {j : Fin m} {call i : ℕ} {markets : List MarketInfo}
    (hcaller : s.callers j = .wait call i markets) (hi : n ≤ i) :
    Moves ctx s (.finish j) { s.setCaller j .idle with reports := s.reports ++ [⟨call, markets⟩] }
  | shard {k : Fin n} {a : ShardWorker.Act (DumpEvent n) Action}
    {shard : ShardWorker (DumpEvent n) Action} (hof : System.ofShard (s.shards k) a = true)
    (hshard : (s.shards k).step a = some shard) : Moves ctx s (.shard k a) (s.setShard k shard)
  | otherPush {k : Fin n} {event : Event} {shard : ShardWorker (DumpEvent n) Action}
    (hshard : (s.shards k).step (.push (.other event)) = some shard) :
    Moves ctx s (.otherPush k event)
      { s.setShard k shard with others := Function.update s.others k (s.others k + 1) }
  | otherNotify {k : Fin n} {shard : ShardWorker (DumpEvent n) Action} (hothers : 0 < s.others k)
    (hshard : (s.shards k).step .notify = some shard) :
    Moves ctx s (.otherNotify k)
      { s.setShard k shard with others := Function.update s.others k (s.others k - 1) }
  | fulfill {k : Fin n} {promise : DumpPromise n} {info : MarketInfo}
    {shard : ShardWorker (DumpEvent n) Action} (hpc : (s.shards k).pc = .taken (some (.dump promise)))
    (hsnapshot : (ctx k).Snapshot info) (hfuture : s.futures promise = some .pending)
    (hshard : (s.shards k).step (.handle []) = some shard) :
    Moves ctx s (.fulfill k info) { s.setShard k shard with
      futures := Function.update s.futures promise (some (.ready info))
      fulfilled := s.fulfilled ++ [(promise, info)] }
  | terminate {k : Fin n} {promise : DumpPromise n} {info : MarketInfo}
    (hpc : (s.shards k).pc = .taken (some (.dump promise)))
    (hfuture : s.futures promise ≠ some .pending) :
    Moves ctx s (.fulfill k info) { s with terminated := true }
  | abandon {k : Fin n} (hpc : (s.shards k).pc = .stopped) :
    Moves ctx s (.abandon k) { s with futures := s.abandoned k }

section Inversion

variable {ctx : Fin n → MarketContext} {s s' : System n m}

theorem moves_dispatch {j : Fin m} (h : s.dispatch j = some s') : Moves ctx s (.dispatch j) s' := by
  unfold System.dispatch at h
  split at h
  next call i hcaller =>
    split at h
    next hi =>
      obtain ⟨shard, hshard, rfl⟩ := Option.map_eq_some_iff.mp h
      exact .dispatch (k := ⟨i, hi⟩) hcaller hshard
    next hi =>
      cases h
      exact .turn hcaller (Nat.le_of_not_lt hi)
  next => cases h

theorem moves_notify {j : Fin m} (h : s.notify j = some s') : Moves ctx s (.notify j) s' := by
  unfold System.notify at h
  split at h
  next call i hcaller =>
    split at h
    next hi =>
      obtain ⟨shard, hshard, rfl⟩ := Option.map_eq_some_iff.mp h
      exact .notify (k := ⟨i, hi⟩) hcaller hshard
    next => cases h
  next => cases h

theorem moves_await {j : Fin m} {timeout : Bool} (h : s.await j timeout = some s') :
    Moves ctx s (.await j timeout) s' := by
  unfold System.await at h
  split at h
  next call i markets hcaller =>
    split at h
    next hi =>
      dsimp only at h
      split at h
      next hfuture =>
        cases h
        exact .get (k := ⟨i, hi⟩) hcaller hfuture
      next =>
        cases h
        exact .skip (k := ⟨i, hi⟩) hcaller
      next =>
        cases h
        exact .skip (k := ⟨i, hi⟩) hcaller
      next => cases h
    next => cases h
  next => cases h

theorem moves_finish {j : Fin m} (h : s.finish j = some s') : Moves ctx s (.finish j) s' := by
  unfold System.finish at h
  split at h
  next hcaller =>
    split at h
    next => cases h
    next hi =>
      cases h
      exact .finish hcaller (Nat.le_of_not_lt hi)
  next => cases h

theorem moves_fulfill {k : Fin n} {info : MarketInfo} (h : s.fulfill ctx k info = some s') :
    Moves ctx s (.fulfill k info) s' := by
  unfold System.fulfill at h
  split at h
  next promise hpc =>
    split at h
    next hsnapshot =>
      split at h
      next hfuture =>
        obtain ⟨shard, hshard, rfl⟩ := Option.map_eq_some_iff.mp h
        exact .fulfill hpc hsnapshot hfuture hshard
      next hfuture =>
        cases h
        exact .terminate hpc hfuture
    next => cases h
  next => cases h

theorem moves_of_step {a : Act n m} (h : step ctx s a = some s') :
    s.terminated = false ∧ Moves ctx s a s' := by
  unfold step at h
  split at h
  next => cases h
  next halive =>
    refine ⟨by simpa using halive, ?_⟩
    cases a with
    | begin j =>
      dsimp only at h
      split at h
      next hcaller =>
        cases h
        exact .begin hcaller
      next => cases h
    | dispatch j => exact moves_dispatch h
    | notify j => exact moves_notify h
    | await j timeout => exact moves_await h
    | finish j => exact moves_finish h
    | shard k a =>
      dsimp only at h
      split at h
      next hof =>
        obtain ⟨shard, hshard, rfl⟩ := Option.map_eq_some_iff.mp h
        exact .shard hof hshard
      next => cases h
    | fulfill k info => exact moves_fulfill h
    | abandon k =>
      obtain ⟨hpc, rfl⟩ : (s.shards k).pc = .stopped ∧ _ = s' := by
        simpa only [System.abandon, Option.ite_none_right_eq_some, Option.some.injEq] using h
      exact .abandon hpc
    | otherPush k event =>
      obtain ⟨shard, hshard, rfl⟩ := Option.map_eq_some_iff.mp h
      exact .otherPush hshard
    | otherNotify k =>
      dsimp only at h
      split at h
      next hothers =>
        obtain ⟨shard, hshard, rfl⟩ := Option.map_eq_some_iff.mp h
        exact .otherNotify hothers hshard
      next => cases h

end Inversion

/-! ## The promises -/

section Promises

/-- The promises that were pushed to a shard, oldest first. -/
def System.dumps (s : System n m) (k : Fin n) : List (DumpPromise n) :=
  (s.shards k).events.filterMap DumpEvent.promise?

/-- Those of them that the shard has handled. -/
def System.handled (s : System n m) (k : Fin n) : List (DumpPromise n) :=
  (ShardWorker.handledEvents (s.shards k).log).filterMap DumpEvent.promise?

/-- Each promise travels once to its own shard, and is fulfilled there. -/
structure Served (ctx : Fin n → MarketContext) (s : System n m) : Prop where
  own : ∀ k, ∀ promise ∈ s.dumps k, promise.shard = k ∧ s.futures promise ≠ none
  nodup : ∀ k, (s.dumps k).Nodup
  ready : ∀ promise info, s.futures promise = some (.ready info) →
    promise ∈ s.handled promise.shard ∧ (promise, info) ∈ s.fulfilled
  snapshot : ∀ promise info, (promise, info) ∈ s.fulfilled → (ctx promise.shard).Snapshot info
  broken : ∀ promise, s.futures promise = some .broken → (s.shards promise.shard).pc = .stopped

variable {ctx : Fin n → MarketContext} {s s' : System n m}

theorem served_init : Served ctx (init n m) where
  own k promise hmem := by cases hmem
  nodup k := List.nodup_nil
  ready promise info hready := by cases hready
  snapshot promise info hmem := by cases hmem
  broken promise hbroken := by cases hbroken

/-- A shard handles a promise that it has not handled before. -/
theorem Served.not_handled {k : Fin n} {promise : DumpPromise n} (h : Served ctx s)
    (hpc : (s.shards k).pc = .taken (some (.dump promise))) :
    promise.shard = k ∧ s.futures promise ≠ none ∧ promise ∉ s.handled k := by
  have hdumps : s.dumps k =
      s.handled k ++ promise :: (s.shards k).eventQueue.filterMap DumpEvent.promise? := by
    simp [System.dumps, System.handled, ShardWorker.events, hpc, DumpEvent.promise?]
  have hnodup := h.nodup k
  rw [hdumps, List.nodup_append] at hnodup
  obtain ⟨hshard, hfuture⟩ := h.own k promise (by simp [hdumps])
  exact ⟨hshard, hfuture, fun hmem => hnodup.2.2 _ hmem _ List.mem_cons_self rfl⟩

/-- The promise that a shard has taken has no value yet, so `set_value` does not throw. -/
theorem Served.pending {k : Fin n} {promise : DumpPromise n} (h : Served ctx s)
    (hpc : (s.shards k).pc = .taken (some (.dump promise))) : s.futures promise = some .pending := by
  obtain ⟨rfl, hsome, hnot⟩ := h.not_handled hpc
  cases hfuture : s.futures promise with
  | none => exact absurd hfuture hsome
  | some future =>
    cases future with
    | pending => rfl
    | ready info => exact absurd (h.ready promise info hfuture).1 hnot
    | broken =>
      have hstopped := h.broken promise hfuture
      rw [hpc] at hstopped
      cases hstopped

section Shard

variable {k : Fin n} {a : ShardWorker.Act (DumpEvent n) Action}
  {shard : ShardWorker (DumpEvent n) Action}

theorem dumps_of_step (hshard : (s.shards k).step a = some shard)
    (hshards : s'.shards = Function.update s.shards k shard) (i : Fin n) :
    s'.dumps i = s.dumps i ++ if i = k then a.event.filterMap DumpEvent.promise? else [] := by
  unfold System.dumps
  rw [hshards]
  by_cases hi : i = k
  · subst hi
    simp [ShardWorker.events_of_step hshard]
  · simp [hi]

theorem handled_of_step (hshard : (s.shards k).step a = some shard)
    (hshards : s'.shards = Function.update s.shards k shard) (i : Fin n) :
    s.handled i ⊆ s'.handled i := by
  unfold System.handled
  rw [hshards]
  by_cases hi : i = k
  · subst hi
    rw [Function.update_self]
    exact List.filterMap_subset _ (ShardWorker.handledEvents_of_step hshard)
  · rw [Function.update_of_ne hi]
    exact List.Subset.refl _

theorem stopped_of_step (hshard : (s.shards k).step a = some shard)
    (hshards : s'.shards = Function.update s.shards k shard) {i : Fin n}
    (hpc : (s.shards i).pc = .stopped) : (s'.shards i).pc = .stopped := by
  rw [hshards]
  by_cases hi : i = k
  · subst hi
    rw [Function.update_self]
    exact ShardWorker.stopped_of_step hshard hpc
  · rw [Function.update_of_ne hi]
    exact hpc

/-- A step of a shard that brings it no promise. -/
theorem Served.work (h : Served ctx s) (hshard : (s.shards k).step a = some shard)
    (hother : a.event.filterMap DumpEvent.promise? = [])
    (hshards : s'.shards = Function.update s.shards k shard) (hfutures : s'.futures = s.futures)
    (hfulfilled : s'.fulfilled = s.fulfilled) : Served ctx s' := by
  have hdumps : ∀ i, s'.dumps i = s.dumps i := by
    intro i
    simp [dumps_of_step hshard hshards, hother]
  constructor
  · intro i promise hmem
    rw [hdumps] at hmem
    rw [hfutures]
    exact h.own i promise hmem
  · intro i
    rw [hdumps]
    exact h.nodup i
  · intro promise info hready
    rw [hfutures] at hready
    rw [hfulfilled]
    exact ⟨handled_of_step hshard hshards _ (h.ready promise info hready).1,
      (h.ready promise info hready).2⟩
  · rw [hfulfilled]
    exact h.snapshot
  · intro promise hbroken
    rw [hfutures] at hbroken
    exact stopped_of_step hshard hshards (h.broken promise hbroken)

/-- A new promise goes to its shard. -/
theorem Served.push (h : Served ctx s) (promise : DumpPromise n)
    (hnew : s.futures promise = none)
    (hshard : (s.shards promise.shard).step (.push (.dump promise)) = some shard)
    (hshards : s'.shards = Function.update s.shards promise.shard shard)
    (hfutures : s'.futures = Function.update s.futures promise (some .pending))
    (hfulfilled : s'.fulfilled = s.fulfilled) : Served ctx s' := by
  have hdumps : ∀ i, s'.dumps i = s.dumps i ++ if i = promise.shard then [promise] else [] :=
    fun i => dumps_of_step hshard hshards i
  -- A future that existed before is another one, and as it was.
  have hold : ∀ other, s.futures other ≠ none → s'.futures other = s.futures other := by
    intro other hsome
    rw [hfutures, Function.update_of_ne]
    rintro rfl
    exact hsome hnew
  have hback : ∀ other future, future ≠ .pending → s'.futures other = some future →
      s.futures other = some future := by
    intro other future hne heq
    rw [hfutures] at heq
    by_cases hother : other = promise
    · subst hother
      rw [Function.update_self] at heq
      exact absurd (Option.some.inj heq).symm hne
    · rwa [Function.update_of_ne hother] at heq
  constructor
  · intro i other hmem
    rw [hdumps, List.mem_append] at hmem
    rcases hmem with hmem | hmem
    · obtain ⟨hown, hsome⟩ := h.own i other hmem
      exact ⟨hown, by rwa [hold other hsome]⟩
    · split at hmem
      next hi =>
        obtain rfl := List.mem_singleton.mp hmem
        exact ⟨hi.symm, by simp [hfutures]⟩
      next => cases hmem
  · intro i
    rw [hdumps, List.nodup_append]
    refine ⟨h.nodup i, by split <;> simp, ?_⟩
    rintro other hmem _ hlast rfl
    split at hlast
    next =>
      obtain rfl := List.mem_singleton.mp hlast
      exact (h.own i _ hmem).2 hnew
    next => cases hlast
  · intro other info hready
    obtain ⟨hhandled, hmem⟩ := h.ready other info (hback other _ (by simp) hready)
    rw [hfulfilled]
    exact ⟨handled_of_step hshard hshards _ hhandled, hmem⟩
  · rw [hfulfilled]
    exact h.snapshot
  · intro other hbroken
    exact stopped_of_step hshard hshards (h.broken other (hback other _ (by simp) hbroken))

/-- The shard that has taken a promise fulfils it. -/
theorem Served.fulfill {promise : DumpPromise n} {info : MarketInfo} (h : Served ctx s)
    (hpc : (s.shards k).pc = .taken (some (.dump promise))) (hsnapshot : (ctx k).Snapshot info)
    (hshard : (s.shards k).step (.handle []) = some shard)
    (hshards : s'.shards = Function.update s.shards k shard)
    (hfutures : s'.futures = Function.update s.futures promise (some (.ready info)))
    (hfulfilled : s'.fulfilled = s.fulfilled ++ [(promise, info)]) : Served ctx s' := by
  obtain ⟨rfl, -, -⟩ := h.not_handled hpc
  have hdumps : ∀ i, s'.dumps i = s.dumps i := by
    intro i
    simp [dumps_of_step hshard hshards, ShardWorker.Act.event]
  have hhandled : promise ∈ s'.handled promise.shard := by
    cases ShardWorker.moves_of_step hshard with
    | handleNone hnone =>
      rw [hpc] at hnone
      cases hnone
    | handleSome hsome =>
      obtain rfl : _ = _ := Option.some.inj (ShardWorker.Pc.taken.inj (hpc.symm.trans hsome))
      simp [System.handled, hshards, ShardWorker.handledEvents, DumpEvent.promise?]
  constructor
  · intro i other hmem
    rw [hdumps] at hmem
    obtain ⟨hown, hsome⟩ := h.own i other hmem
    refine ⟨hown, ?_⟩
    rw [hfutures, Function.update_apply]
    split
    next => simp
    next => exact hsome
  · intro i
    rw [hdumps]
    exact h.nodup i
  · intro other found hready
    rw [hfutures] at hready
    rw [hfulfilled, List.mem_append]
    by_cases hother : other = promise
    · subst hother
      simp only [Function.update_self, Option.some.injEq, Future.ready.injEq] at hready
      exact ⟨hhandled, .inr (by simp [hready])⟩
    · rw [Function.update_of_ne hother] at hready
      obtain ⟨hbefore, hmem⟩ := h.ready other found hready
      exact ⟨handled_of_step hshard hshards _ hbefore, .inl hmem⟩
  · intro other found hmem
    rw [hfulfilled, List.mem_append, List.mem_singleton] at hmem
    rcases hmem with hmem | hmem
    · exact h.snapshot other found hmem
    · cases hmem
      exact hsnapshot
  · intro other hbroken
    rw [hfutures, Function.update_apply] at hbroken
    split at hbroken
    next => cases hbroken
    next => exact stopped_of_step hshard hshards (h.broken other hbroken)

end Shard

/-- A step that moves no shard: nothing happens to a promise, unless it breaks with its
    stopped shard. -/
theorem Served.still (h : Served ctx s) (hshards : s'.shards = s.shards)
    (hfulfilled : s'.fulfilled = s.fulfilled)
    (hfutures : ∀ promise, s'.futures promise = s.futures promise ∨
      s'.futures promise = some .broken ∧ (s.shards promise.shard).pc = .stopped) :
    Served ctx s' := by
  have hdumps : s'.dumps = s.dumps := by funext i; simp only [System.dumps, hshards]
  have hhandled : s'.handled = s.handled := by funext i; simp only [System.handled, hshards]
  constructor
  · intro i promise hmem
    rw [hdumps] at hmem
    refine ⟨(h.own i promise hmem).1, ?_⟩
    rcases hfutures promise with heq | ⟨heq, -⟩
    · rw [heq]
      exact (h.own i promise hmem).2
    · simp [heq]
  · rw [hdumps]
    exact h.nodup
  · intro promise info hready
    rw [hhandled, hfulfilled]
    rcases hfutures promise with heq | ⟨heq, -⟩
    · exact h.ready promise info (heq.symm.trans hready)
    · rw [heq] at hready
      cases hready
  · rw [hfulfilled]
    exact h.snapshot
  · intro promise hbroken
    rw [hshards]
    rcases hfutures promise with heq | ⟨-, hstopped⟩
    · exact h.broken promise (heq.symm.trans hbroken)
    · exact hstopped

end Promises

/-! ## The callers -/

section Callers

/-- The call that a thread is in. -/
def Caller.call? : Caller → Option ℕ
  | .idle => none
  | .dispatch call _ | .notify call _ | .wait call _ _ => some call

namespace System

/-- After the first `i` futures of a call: which shards have answered, in their order, with what;
    the others were skipped. -/
def Collected (s : System n m) (call i : ℕ) (markets : List MarketInfo) : Prop :=
  ∃ answered : List (Fin n), answered.Pairwise (· < ·) ∧ (∀ k ∈ answered, k.val < i) ∧
    List.Forall₂ (fun k info => (⟨call, k⟩, info) ∈ s.fulfilled) answered markets ∧
    ∀ k : Fin n, k.val < i → k ∉ answered → ⟨call, k⟩ ∈ s.skipped

/-- What a thread knows in `marketSnapshot`: the promises it has not made do not exist, or the
    answers it has are those of its own call. -/
def CallerOk (s : System n m) : Caller → Prop
  | .idle => True
  | .dispatch call i => call < s.calls ∧ ∀ k : Fin n, i ≤ k.val → s.futures ⟨call, k⟩ = none
  | .notify call i => call < s.calls ∧ ∀ k : Fin n, i < k.val → s.futures ⟨call, k⟩ = none
  | .wait call i markets => call < s.calls ∧ s.Collected call i markets

end System

/-- Every thread is in a call of its own, and a call is over when it is reported. -/
structure Called (s : System n m) : Prop where
  made : ∀ promise, s.futures promise ≠ none → promise.call < s.calls
  callers : ∀ j, s.CallerOk (s.callers j)
  distinct : ∀ i j call, (s.callers i).call? = some call → (s.callers j).call? = some call → i = j
  reports : ∀ report ∈ s.reports, report.call < s.calls ∧ s.Collected report.call n report.markets
  nodup : (s.reports.map Report.call).Nodup
  reported : ∀ j call, (s.callers j).call? = some call → call ∉ s.reports.map Report.call

variable {s s' : System n m}

theorem called_init : Called (init n m) where
  made promise hsome := absurd rfl hsome
  callers j := trivial
  distinct i j call hi := by cases hi
  reports report hmem := by cases hmem
  nodup := List.nodup_nil
  reported j call hcall := by cases hcall

namespace System

theorem collected_zero (s : System n m) (call : ℕ) : s.Collected call 0 [] :=
  ⟨[], .nil, by simp, .nil, by simp⟩

theorem Collected.mono {call i : ℕ} {markets : List MarketInfo} (h : s.Collected call i markets)
    (hfulfilled : s.fulfilled ⊆ s'.fulfilled) (hskipped : s.skipped ⊆ s'.skipped) :
    s'.Collected call i markets := by
  obtain ⟨answered, hsorted, hlt, hanswers, hrest⟩ := h
  exact ⟨answered, hsorted, hlt, hanswers.imp fun _ _ hmem => hfulfilled hmem,
    fun k hk hnot => hskipped (hrest k hk hnot)⟩

theorem Collected.get {call : ℕ} {k : Fin n} {markets : List MarketInfo} {info : MarketInfo}
    (h : s.Collected call k markets) (hmem : (⟨call, k⟩, info) ∈ s.fulfilled) :
    s.Collected call (k + 1) (markets ++ [info]) := by
  obtain ⟨answered, hsorted, hlt, hanswers, hrest⟩ := h
  refine ⟨answered ++ [k], ?_, ?_, ?_, ?_⟩
  · rw [List.pairwise_append]
    refine ⟨hsorted, List.pairwise_singleton _ _, fun i hi j hj => ?_⟩
    obtain rfl := List.mem_singleton.mp hj
    exact hlt i hi
  · intro i hi
    rcases List.mem_append.mp hi with hi | hi
    · exact Nat.lt_succ_of_lt (hlt i hi)
    · obtain rfl := List.mem_singleton.mp hi
      exact Nat.lt_succ_self _
  · exact List.rel_append hanswers (.cons hmem .nil)
  · intro i hi hnot
    rw [List.mem_append, not_or, List.mem_singleton] at hnot
    refine hrest i (Nat.lt_of_le_of_ne (Nat.le_of_lt_succ hi) fun heq => ?_) hnot.1
    exact hnot.2 (Fin.ext heq)

theorem Collected.skip {call : ℕ} {k : Fin n} {markets : List MarketInfo}
    (h : s.Collected call k markets) (hfulfilled : s.fulfilled ⊆ s'.fulfilled)
    (hskipped : s'.skipped = s.skipped ++ [⟨call, k⟩]) : s'.Collected call (k + 1) markets := by
  obtain ⟨answered, hsorted, hlt, hanswers, hrest⟩ := h
  refine ⟨answered, hsorted, fun i hi => Nat.lt_succ_of_lt (hlt i hi),
    hanswers.imp fun _ _ hmem => hfulfilled hmem, fun i hi hnot => ?_⟩
  rw [hskipped, List.mem_append, List.mem_singleton]
  by_cases heq : i = k
  · exact .inr (by rw [heq])
  · refine .inl (hrest i (Nat.lt_of_le_of_ne (Nat.le_of_lt_succ hi) fun hval => ?_) hnot)
    exact heq (Fin.ext hval)

/-- What a thread knows stays true when no promise of its call is made. -/
theorem CallerOk.mono {caller : Caller} (h : s.CallerOk caller) (hcalls : s.calls ≤ s'.calls)
    (hfulfilled : s.fulfilled ⊆ s'.fulfilled) (hskipped : s.skipped ⊆ s'.skipped)
    (hnone : ∀ promise, caller.call? = some promise.call → s.futures promise = none →
      s'.futures promise = none) : s'.CallerOk caller := by
  cases caller with
  | idle => trivial
  | dispatch call i => exact ⟨h.1.trans_le hcalls, fun k hk => hnone _ rfl (h.2 k hk)⟩
  | notify call i => exact ⟨h.1.trans_le hcalls, fun k hk => hnone _ rfl (h.2 k hk)⟩
  | wait call i markets => exact ⟨h.1.trans_le hcalls, h.2.mono hfulfilled hskipped⟩

theorem CallerOk.lt {caller : Caller} {call : ℕ} (h : s.CallerOk caller)
    (hcall : caller.call? = some call) : call < s.calls := by
  cases caller with
  | idle => cases hcall
  | dispatch | notify | wait =>
    cases hcall
    exact h.1

end System

/-- No call begins or ends. -/
theorem Called.same_calls (h : Called s) (hcall : ∀ i, (s'.callers i).call? = (s.callers i).call?)
    (hok : ∀ i, s'.CallerOk (s'.callers i))
    (hmade : ∀ promise, s'.futures promise ≠ none → promise.call < s.calls)
    (hcalls : s'.calls = s.calls) (hfulfilled : s.fulfilled ⊆ s'.fulfilled)
    (hskipped : s.skipped ⊆ s'.skipped) (hreports : s'.reports = s.reports) : Called s' := by
  constructor
  · rw [hcalls]
    exact hmade
  · exact hok
  · intro i j call hi hj
    rw [hcall] at hi hj
    exact h.distinct i j call hi hj
  · intro report hmem
    rw [hreports] at hmem
    rw [hcalls]
    exact ⟨(h.reports report hmem).1, (h.reports report hmem).2.mono hfulfilled hskipped⟩
  · rw [hreports]
    exact h.nodup
  · intro i call hi
    rw [hcall] at hi
    rw [hreports]
    exact h.reported i call hi

/-- A thread that stays in its call: it alone may have made a promise, and only of this call. -/
theorem Called.stay {j : Fin m} (h : Called s) (caller : Caller)
    (hcallers : s'.callers = Function.update s.callers j caller)
    (hcall : caller.call? = (s.callers j).call?) (hok : s'.CallerOk caller)
    (hcalls : s'.calls = s.calls) (hfulfilled : s.fulfilled ⊆ s'.fulfilled)
    (hskipped : s.skipped ⊆ s'.skipped) (hreports : s'.reports = s.reports)
    (hfutures : ∀ promise, (s.callers j).call? ≠ some promise.call →
      s'.futures promise = s.futures promise) : Called s' := by
  refine h.same_calls (fun i => ?_) (fun i => ?_) (fun promise hsome => ?_) hcalls hfulfilled hskipped
    hreports
  · rw [hcallers, Function.update_apply]
    split
    next hi => rw [hi, hcall]
    next => rfl
  · rw [hcallers, Function.update_apply]
    split
    next => exact hok
    next hi =>
      refine (h.callers i).mono hcalls.ge hfulfilled hskipped fun promise hpromise hnone => ?_
      rwa [hfutures promise fun hmine => hi (h.distinct i j promise.call hpromise hmine)]
  · by_cases hmine : (s.callers j).call? = some promise.call
    · exact (h.callers j).lt hmine
    · exact h.made promise (by rwa [← hfutures promise hmine])

/-- A step of no caller. -/
theorem Called.frame (h : Called s) (hcallers : s'.callers = s.callers) (hcalls : s'.calls = s.calls)
    (hfulfilled : s.fulfilled ⊆ s'.fulfilled) (hskipped : s'.skipped = s.skipped)
    (hreports : s'.reports = s.reports)
    (hfutures : ∀ promise, s'.futures promise = none ↔ s.futures promise = none) : Called s' := by
  have hskipped' : s.skipped ⊆ s'.skipped := by rw [hskipped]; exact List.Subset.refl _
  refine h.same_calls (fun i => by rw [hcallers]) (fun i => ?_) (fun promise hsome => ?_) hcalls
    hfulfilled hskipped' hreports
  · rw [hcallers]
    exact (h.callers i).mono hcalls.ge hfulfilled hskipped' fun promise _ => (hfutures promise).mpr
  · exact h.made promise fun hnone => hsome ((hfutures promise).mpr hnone)

theorem Called.begin {j : Fin m} (h : Called s) :
    Called { s.setCaller j (.dispatch s.calls 0) with calls := s.calls + 1 } := by
  have hnone : ∀ k : Fin n, s.futures ⟨s.calls, k⟩ = none := by
    intro k
    by_contra hsome
    exact absurd (h.made _ hsome) (Nat.lt_irrefl _)
  have hnew : ∀ i, (s.callers i).call? ≠ some s.calls := fun i hi =>
    absurd ((h.callers i).lt hi) (Nat.lt_irrefl _)
  constructor
  · exact fun promise hsome => Nat.lt_succ_of_lt (h.made promise hsome)
  · intro i
    simp only [System.setCaller, Function.update_apply]
    split
    next => exact ⟨Nat.lt_succ_self _, fun k _ => hnone k⟩
    next =>
      refine (h.callers i).mono (Nat.le_succ _) ?_ ?_ fun _ _ hnone => hnone
      · exact List.Subset.refl _
      · exact List.Subset.refl _
  · intro i i' call hi hi'
    simp only [System.setCaller, Function.update_apply] at hi hi'
    split at hi <;> split at hi'
    next heq heq' => rw [heq, heq']
    next => exact absurd (hi'.trans hi.symm) (hnew i')
    next => exact absurd (hi.trans hi'.symm) (hnew i)
    next => exact h.distinct i i' call hi hi'
  · exact fun report hmem => ⟨Nat.lt_succ_of_lt (h.reports report hmem).1, (h.reports report hmem).2⟩
  · exact h.nodup
  · intro i call hi
    simp only [System.setCaller, Function.update_apply] at hi
    split at hi
    next =>
      cases hi
      intro hmem
      obtain ⟨report, hreport, heq⟩ := List.mem_map.mp hmem
      exact absurd (h.reports report hreport).1 (by simp [heq])
    next => exact h.reported i call hi

theorem Called.finish {j : Fin m} {call i : ℕ} {markets : List MarketInfo} (h : Called s)
    (hcaller : s.callers j = .wait call i markets) (hi : n ≤ i) :
    Called { s.setCaller j .idle with reports := s.reports ++ [⟨call, markets⟩] } := by
  have hcall : (s.callers j).call? = some call := by rw [hcaller]; rfl
  have hwait := h.callers j
  rw [hcaller] at hwait
  obtain ⟨hlt, answered, hsorted, -, hanswers, hrest⟩ := hwait
  -- Who is in a call now was in it before, and is another thread.
  have hback : ∀ i c, ((s.setCaller j .idle).callers i).call? = some c →
      i ≠ j ∧ (s.callers i).call? = some c := by
    intro i c hi
    simp only [System.setCaller, Function.update_apply] at hi
    split at hi
    next => cases hi
    next hne => exact ⟨hne, hi⟩
  constructor
  · exact h.made
  · intro i
    simp only [System.setCaller, Function.update_apply]
    split
    next => trivial
    next => exact h.callers i
  · exact fun i i' c hi hi' => h.distinct i i' c (hback i c hi).2 (hback i' c hi').2
  · intro report hmem
    rcases List.mem_append.mp hmem with hmem | hmem
    · exact h.reports report hmem
    · obtain rfl := List.mem_singleton.mp hmem
      exact ⟨hlt, answered, hsorted, fun k _ => k.isLt, hanswers,
        fun k hk => hrest k (hk.trans_le hi)⟩
  · rw [List.map_append, List.nodup_append]
    refine ⟨h.nodup, List.pairwise_singleton _ _, ?_⟩
    rintro c hc _ hlast rfl
    obtain rfl := List.mem_singleton.mp hlast
    exact h.reported j _ hcall hc
  · intro i c hi
    obtain ⟨hne, hbefore⟩ := hback i c hi
    rw [List.map_append, List.mem_append, not_or]
    refine ⟨h.reported i c hbefore, fun hlast => hne ?_⟩
    obtain rfl := List.mem_singleton.mp hlast
    exact h.distinct i j _ hbefore hcall

end Callers

/-! ## Whole runs -/

section Runs

structure Inv (ctx : Fin n → MarketContext) (s : System n m) : Prop where
  alive : s.terminated = false
  served : Served ctx s
  called : Called s

variable {ctx : Fin n → MarketContext} {s s' : System n m}

theorem System.abandoned_cases {k : Fin n} (promise : DumpPromise n)
    (hpc : (s.shards k).pc = .stopped) :
    s.abandoned k promise = s.futures promise ∨
      s.abandoned k promise = some .broken ∧ s.futures promise ≠ none ∧
        (s.shards promise.shard).pc = .stopped := by
  unfold System.abandoned
  split
  next hpending =>
    split
    next heq => exact .inr ⟨rfl, by simp [hpending], heq ▸ hpc⟩
    next => exact .inl hpending.symm
  next => exact .inl rfl

theorem Inv.moves {a : Act n m} (h : Inv ctx s) (hmoves : Moves ctx s a s') : Inv ctx s' := by
  have hrefl : ∀ {α : Type} (l : List α), l ⊆ l := List.Subset.refl
  -- a step of a shard or of another thread
  have hwork : ∀ {k b shard others}, (s.shards k).step b = some shard →
      b.event.filterMap DumpEvent.promise? = [] → Inv ctx { s.setShard k shard with others := others } :=
    fun hshard hother => ⟨h.alive, h.served.work hshard hother rfl rfl rfl,
      h.called.frame rfl rfl (hrefl _) rfl rfl fun _ => Iff.rfl⟩
  cases hmoves with
  | begin hcaller => exact ⟨h.alive, h.served.still rfl rfl fun _ => .inl rfl, h.called.begin⟩
  | @dispatch j call k shard hcaller hshard =>
    have hok := h.called.callers j
    rw [hcaller] at hok
    refine ⟨h.alive, h.served.push ⟨call, k⟩ (hok.2 k le_rfl) hshard rfl rfl rfl, ?_⟩
    refine h.called.stay (.notify call k) rfl (by rw [hcaller]; rfl) ⟨hok.1, ?_⟩ rfl
      (hrefl _) (hrefl _) rfl ?_
    · intro i hi
      refine (Function.update_of_ne ?_ _ _).trans (hok.2 i hi.le)
      intro heq
      cases heq
      exact absurd hi (Nat.lt_irrefl _)
    · intro promise hne
      refine Function.update_of_ne ?_ _ _
      rintro rfl
      exact hne (by rw [hcaller]; rfl)
  | @turn j call i hcaller hi =>
    have hok := h.called.callers j
    rw [hcaller] at hok
    refine ⟨h.alive, h.served.still rfl rfl fun _ => .inl rfl, ?_⟩
    exact h.called.stay (.wait call 0 []) rfl (by rw [hcaller]; rfl)
      ⟨hok.1, System.collected_zero _ _⟩ rfl (hrefl _) (hrefl _) rfl fun _ _ => rfl
  | @notify j call k shard hcaller hshard =>
    have hok := h.called.callers j
    rw [hcaller] at hok
    refine ⟨h.alive, h.served.work hshard rfl rfl rfl rfl, ?_⟩
    exact h.called.stay (.dispatch call (k + 1)) rfl (by rw [hcaller]; rfl)
      ⟨hok.1, fun i hi => hok.2 i hi⟩ rfl (hrefl _) (hrefl _) rfl fun _ _ => rfl
  | @get j call k markets info hcaller hfuture =>
    have hok := h.called.callers j
    rw [hcaller] at hok
    refine ⟨h.alive, h.served.still rfl rfl fun _ => .inl rfl, ?_⟩
    exact h.called.stay (.wait call (k + 1) (markets ++ [info])) rfl
      (by rw [hcaller]; rfl) ⟨hok.1, hok.2.get (h.served.ready _ _ hfuture).2⟩ rfl (hrefl _)
      (hrefl _) rfl fun _ _ => rfl
  | @skip j timeout call k markets hcaller =>
    have hok := h.called.callers j
    rw [hcaller] at hok
    refine ⟨h.alive, h.served.still rfl rfl fun _ => .inl rfl, ?_⟩
    exact h.called.stay (.wait call (k + 1) markets) rfl (by rw [hcaller]; rfl)
      ⟨hok.1, hok.2.skip (hrefl _) rfl⟩ rfl (hrefl _) (List.subset_append_left _ _) rfl
      fun _ _ => rfl
  | finish hcaller hi =>
    exact ⟨h.alive, h.served.still rfl rfl fun _ => .inl rfl, h.called.finish hcaller hi⟩
  | shard hof hshard => exact hwork hshard (System.promise_of_ofShard hof)
  | otherPush hshard => exact hwork hshard rfl
  | otherNotify hothers hshard => exact hwork hshard rfl
  | fulfill hpc hsnapshot hfuture hshard =>
    refine ⟨h.alive, h.served.fulfill hpc hsnapshot hshard rfl rfl rfl, ?_⟩
    refine h.called.frame rfl rfl (List.subset_append_left _ _) rfl rfl fun promise => ?_
    simp only [Function.update_apply]
    split
    next heq => simp [heq, hfuture]
    next => exact Iff.rfl
  | terminate hpc hfuture => exact absurd (h.served.pending hpc) hfuture
  | @abandon k hpc =>
    refine ⟨h.alive, h.served.still rfl rfl fun promise => ?_, ?_⟩
    · exact (System.abandoned_cases promise hpc).imp_right fun hbroken => ⟨hbroken.1, hbroken.2.2⟩
    · refine h.called.frame rfl rfl (hrefl _) rfl rfl fun promise => ?_
      rcases System.abandoned_cases promise hpc with heq | ⟨heq, hsome, -⟩
      · exact iff_of_eq (congrArg (· = none) heq)
      · exact iff_of_false (by simp [heq]) hsome

theorem inv_run {acts : List (Act n m)} (hrun : run (step ctx) (init n m) acts = some s) :
    Inv ctx s := by
  refine run_induct (fun s a s' h _ hstep => ?_) ⟨rfl, served_init, called_init⟩ (along_true _ _) hrun
  exact h.moves (moves_of_step hstep).2

end Runs

end CoreControl

end NfEngine
