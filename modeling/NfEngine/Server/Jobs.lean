-- SUMMARY: The requests under way inside the server, counted over its workers and shards.
import Mathlib.Algebra.Order.BigOperators.Group.Finset
import NfEngine.Server.Model

/-!
# Jobs

A request that a worker has accepted is a job until its response has changed the
session: it is the event of the packet in hand, then an event or an action of a
shard. A job is in one place at a time, so the number of jobs of a kind is a sum
over the workers and the shards, and each step moves it by what it does to one of
them.
-/

namespace NfEngine

open Lib

inductive JobKind where
  | login
  | lobby
  | ping
  deriving DecidableEq

structure Job where
  sid : SessionId
  kind : JobKind
  deriving DecidableEq

/-- The job of an event; the internal event has none. -/
def Event.job? : Event → Option Job
  | .loginReq sid _ _ _ => some ⟨sid, .login⟩
  | .lobbyEntryReq sid _ => some ⟨sid, .lobby⟩
  | .pingReq sid _ _ _ => some ⟨sid, .ping⟩
  | .marketDumpReq => none

def Action.job : Action → Job
  | .loginSuccessRes sid => ⟨sid, .login⟩
  | .loginFailRes sid => ⟨sid, .login⟩
  | .lobbyEntryRes sid => ⟨sid, .lobby⟩
  | .pingRes sid _ _ => ⟨sid, .ping⟩

/-- The job kind of a request opcode. -/
def Opcode.jobKind? : Opcode → Option JobKind
  | .loginReq => some .login
  | .lobbyEntryReq => some .lobby
  | .pingReq => some .ping
  | _ => none

/-- A handler answers the job of its event. -/
theorem Event.handleEvent_jobs (event : Event) (db : AccountDb) :
    (event.handleEvent db).toList.map Action.job = event.job?.toList := by
  cases event with
  | loginReq sid payload id pw =>
    simp only [handleEvent, LoginContext.loginReqEvent, ActionFactory.create]
    repeat' split
    all_goals rfl
  | lobbyEntryReq sid payload => rfl
  | pingReq sid payload nonce clientTs => rfl
  | marketDumpReq => rfl

/-- The job of an event built from a packet is the packet's. -/
theorem EventFactory.create_job {parsed : ParsedPacket} {event : Event}
    (h : create parsed = some event) :
    ∃ kind, parsed.opcode.jobKind? = some kind ∧ event.job? = some ⟨parsed.sessionId, kind⟩ := by
  obtain ⟨hsid, hop⟩ := create_origin h
  cases event <;> simp only [Event.sessionId?, Event.opcode?, Option.some.injEq, reduceCtorEq] at hsid hop
  all_goals
    rw [← hop, ← hsid]
    exact ⟨_, rfl, rfl⟩

def Worker.jobs (worker : Worker) : List Job := (worker.pending.bind fun p => p.2.job?).toList

def ShardPc.jobs : ShardPc → List Job
  | .update action _ _ => [action.job]
  | .idle | .send _ _ _ => []

def Shard.jobs (shard : Shard) : List Job :=
  shard.pc.jobs ++ shard.actionQueue.map Action.job ++ shard.eventQueue.filterMap Event.job?

theorem Worker.jobs_finish (worker : Worker) : worker.finish.jobs = [] := rfl

theorem Shard.jobs_enqueueEvent (shard : Shard) (event : Event) :
    (shard.enqueueEvent event).jobs = shard.jobs ++ event.job?.toList := by
  have hone : [event].filterMap Event.job? = event.job?.toList := by
    cases h : event.job? <;> simp [h]
  simp only [jobs, enqueueEvent, List.filterMap_append, hone, List.append_assoc]

namespace Server

variable {cfg : ServerConfig} {s s' : Server cfg} {w : WorkerId cfg} {k : Fin cfg.shardCount}

/-- How often a job is under way. -/
def jobCount (s : Server cfg) (job : Job) : ℕ :=
  ∑ w, (s.workers w).jobs.count job + ∑ k, (s.shards k).jobs.count job

theorem jobCount_init (job : Job) : (init cfg).jobCount job = 0 := by
  simp [jobCount, init, Worker.jobs, Shard.jobs, ShardPc.jobs]

/-- Only workers and shards have jobs. -/
theorem jobCount_congr (hw : s'.workers = s.workers) (hk : s'.shards = s.shards) (job : Job) :
    s'.jobCount job = s.jobCount job := by
  simp only [jobCount, hw, hk]

theorem jobCount_setWorker (s : Server cfg) (w : WorkerId cfg) (worker : Worker) (job : Job) :
    (s.setWorker w worker).jobCount job + (s.workers w).jobs.count job =
      s.jobCount job + worker.jobs.count job := by
  have hsum := sum_update_add (fun x : Worker => x.jobs.count job) s.workers w worker
  simp only [jobCount, setWorker]
  omega

theorem jobCount_setShard (s : Server cfg) (k : Fin cfg.shardCount) (shard : Shard) (job : Job) :
    (s.setShard k shard).jobCount job + (s.shards k).jobs.count job =
      s.jobCount job + shard.jobs.count job := by
  have hsum := sum_update_add (fun x : Shard => x.jobs.count job) s.shards k shard
  simp only [jobCount, setShard]
  omega

theorem jobCount_enqueueRx (s : Server cfg) (w : WorkerId cfg) (item : RxItem) (job : Job) :
    (s.enqueueRx w item).jobCount job = s.jobCount job := by
  exact Nat.add_right_cancel (s.jobCount_setWorker w ((s.workers w).enqueueRx item) job)

/-! ## Jobs from step to step -/

theorem jobCount_pos {job : Job} (h : job ∈ (s.shards k).jobs) : 0 < s.jobCount job := by
  have hone : 0 < (s.shards k).jobs.count job := List.count_pos_iff.mpr h
  have hle : (s.shards k).jobs.count job ≤ ∑ k, (s.shards k).jobs.count job :=
    Finset.single_le_sum (f := fun k => (s.shards k).jobs.count job) (fun _ _ => Nat.zero_le _)
      (Finset.mem_univ k)
  simp only [jobCount]
  omega

/-- A dispatched job moves from the worker to the shard. -/
theorem jobCount_dispatch {idx : ℕ} {event : Event} (hp : (s.workers w).pending = some (idx, event))
    (job : Job) :
    ((s.setWorker w (s.workers w).finish).setShard k ((s.shards k).enqueueEvent event)).jobCount job =
      s.jobCount job := by
  have hworker := s.jobCount_setWorker w (s.workers w).finish job
  have hshard := (s.setWorker w (s.workers w).finish).jobCount_setShard k
    ((s.shards k).enqueueEvent event) job
  have hjobs : (s.workers w).jobs = event.job?.toList := by
    simp only [Worker.jobs, hp, Option.bind_some]
  have hsame : (s.setWorker w (s.workers w).finish).shards k = s.shards k := rfl
  rw [hjobs, Worker.jobs_finish, List.count_nil] at hworker
  rw [Shard.jobs_enqueueEvent, hsame, List.count_append] at hshard
  omega

theorem jobCount_finish (job : Job) :
    (s.setWorker w (s.workers w).finish).jobCount job ≤ s.jobCount job := by
  have hworker := s.jobCount_setWorker w (s.workers w).finish job
  rw [Worker.jobs_finish, List.count_nil] at hworker
  omega

/-- An event becomes the action that answers it. -/
theorem jobCount_handleEvent {event : Event} {events : List Event}
    (hk : s.shards k = ⟨event :: events, [], .idle⟩) (db : AccountDb) (job : Job) :
    (s.setShard k ⟨events, (event.handleEvent db).toList, .idle⟩).jobCount job = s.jobCount job := by
  have hshard := s.jobCount_setShard k ⟨events, (event.handleEvent db).toList, .idle⟩ job
  have hcons : (event :: events).filterMap Event.job? =
      event.job?.toList ++ events.filterMap Event.job? := by
    cases h : event.job? <;> simp [h]
  simp only [Shard.jobs, hk, event.handleEvent_jobs db, hcons, ShardPc.jobs, List.map_nil,
    List.nil_append, List.append_nil] at hshard
  exact Nat.add_right_cancel hshard

/-- An action without a session is lost. -/
theorem jobCount_snapshot_miss {events : List Event} {action : Action} {actions : List Action}
    (hk : s.shards k = ⟨events, action :: actions, .idle⟩) (job : Job) :
    (s.setShard k ⟨events, actions, .idle⟩).jobCount job ≤ s.jobCount job := by
  have hshard := s.jobCount_setShard k ⟨events, actions, .idle⟩ job
  simp only [Shard.jobs, hk, ShardPc.jobs, List.map_cons, List.nil_append, List.cons_append,
    List.count_cons] at hshard
  omega

theorem jobCount_snapshot {events : List Event} {action : Action} {actions : List Action}
    (hk : s.shards k = ⟨events, action :: actions, .idle⟩) (payload : List UInt8)
    (snap : SessionTxSnapshot) (job : Job) :
    (s.setShard k ⟨events, actions, .update action payload snap⟩).jobCount job =
      s.jobCount job := by
  have hshard := s.jobCount_setShard k ⟨events, actions, .update action payload snap⟩ job
  simp only [Shard.jobs, hk, ShardPc.jobs, List.map_cons, List.nil_append, List.cons_append] at hshard
  exact Nat.add_right_cancel hshard

/-- The job has ended before the packet is sent. -/
theorem jobCount_send {events : List Event} {actions : List Action} {action : Action}
    {payload : List UInt8} {snap : SessionTxSnapshot}
    (hk : s.shards k = ⟨events, actions, .send action payload snap⟩) (job : Job) :
    (s.setShard k ⟨events, actions, .idle⟩).jobCount job = s.jobCount job := by
  have hshard := s.jobCount_setShard k ⟨events, actions, .idle⟩ job
  simp only [Shard.jobs, hk, ShardPc.jobs] at hshard
  exact Nat.add_right_cancel hshard

/-- A packet that routing drops leaves no job. -/
theorem jobCount_route_drop {rest : List RxItem} (hp : (s.workers w).pending = none) (job : Job) :
    (s.setWorker w ⟨rest, none⟩).jobCount job = s.jobCount job := by
  have hworker := s.jobCount_setWorker w ⟨rest, none⟩ job
  simp only [Worker.jobs, hp] at hworker
  exact Nat.add_right_cancel hworker

/-- A packet that the session check accepts becomes at most one job, of the session
    and the kind its header gives. -/
theorem jobCount_route (rest : List RxItem) (parsed : ParsedPacket) (sm : SessionManager)
    (history : History) (hp : (s.workers w).pending = none) :
    ∃ new : List Job,
      (new = [] ∨ ∃ kind, parsed.opcode.jobKind? = some kind ∧ new = [⟨parsed.sessionId, kind⟩]) ∧
      ∀ job, { s.setWorker w ⟨rest, (EventFactory.create parsed).map fun event =>
            (RxRouter.selectShard cfg.shardCount parsed.sessionId, event)⟩ with
          sessions := sm
          history := history }.jobCount job = s.jobCount job + new.count job := by
  refine ⟨((EventFactory.create parsed).bind Event.job?).toList, ?_, fun job => ?_⟩
  · cases hev : EventFactory.create parsed with
    | none => exact .inl rfl
    | some event =>
      obtain ⟨kind, hkind, hjob⟩ := EventFactory.create_job hev
      exact .inr ⟨kind, hkind, by simp [hjob]⟩
  · have hworker := s.jobCount_setWorker w ⟨rest, (EventFactory.create parsed).map fun event =>
      (RxRouter.selectShard cfg.shardCount parsed.sessionId, event)⟩ job
    simp only [Worker.jobs, hp, Option.bind_none, Option.toList_none, List.count_nil, Nat.add_zero,
      Option.bind_map] at hworker
    exact hworker

/-- Changing the state of the session ends the job. -/
theorem jobCount_update {events : List Event} {actions : List Action} {action : Action}
    {payload : List UInt8} {snap : SessionTxSnapshot} (sm : SessionManager)
    (hk : s.shards k = ⟨events, actions, .update action payload snap⟩) (job : Job) :
    { s.setShard k ⟨events, actions, .send action payload snap⟩ with sessions := sm }.jobCount job +
      (if job = action.job then 1 else 0) = s.jobCount job := by
  have hshard := s.jobCount_setShard k ⟨events, actions, .send action payload snap⟩ job
  simp only [Shard.jobs, hk, ShardPc.jobs, List.nil_append, List.cons_append,
    List.count_cons, beq_iff_eq] at hshard
  have hsame : { s.setShard k ⟨events, actions, .send action payload snap⟩ with
      sessions := sm }.jobCount job =
      (s.setShard k ⟨events, actions, .send action payload snap⟩).jobCount job := rfl
  rw [hsame]
  by_cases hjob : job = action.job
  · simp only [hjob, if_true] at hshard ⊢
    omega
  · rw [if_neg (Ne.symm hjob)] at hshard
    rw [if_neg hjob]
    omega

end Server

end NfEngine
