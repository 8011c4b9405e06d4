-- SUMMARY: The connection pool under concurrent account lookups: every interleaving of the calls, every answer of the database.
import NfEngine.Db.DbManager

/-!
# The connection pool under concurrent lookups

Shard workers call `getAccountPassword` concurrently. A call takes a connection off the
front of the pool, makes up to six ODBC calls on it and pushes it back; it can end behind
each of the six, and each end releases the connection with code of its own. The first
exit, for a null connection, releases nothing.

A worker is modelled by the point at which its call stands. The pool is touched under
the mutex, in one step each; the answers of the ODBC calls are chosen by the environment.
Connections are told apart by the address of their object, not by their handle. What
pool and workers own together never changes, and the calls keep a record of what they
took and gave back. The calls are those of `DbCalls`, and their answers, from a driver on
a table, those of `DbManager.query`.
-/

namespace NfEngine

open Lib.Transition Lib.Pool

/-! ## ODBC -/

/-- `SQLRETURN`. -/
abbrev SqlReturn := Int

/-- `SQL_SUCCEEDED`: `SQL_SUCCESS` or `SQL_SUCCESS_WITH_INFO`. -/
def sqlSucceeded (ret : SqlReturn) : Bool := ret == 0 || ret == 1

/-- `SQL_NO_DATA`. -/
def sqlNoData : SqlReturn := 100

/-- `SQL_NULL_DATA`. -/
def sqlNullData : Int := -1

/-- What an ODBC call leaves behind: its return value and, for `SQLGetData`, the buffer and
    the indicator. -/
structure OdbcResult where
  ret : SqlReturn
  pwBuf : List UInt8
  pwInd : Int

/-- A `std::shared_ptr<DbConnection>`: the object it points to. -/
structure PooledConnection extends DbConnection where
  addr : ℕ

/-! ## `init` -/

/-- The answers that a round of `init` meets. -/
structure ConnectResult where
  allocHandle : SqlReturn
  dbc : ℕ
  driverConnect : SqlReturn

/-- The loop of `init`, from round `i` on: whether it succeeds, and the pool it leaves. Every
    round makes a new object. -/
def DbManager.connectAll (connect : ℕ → ConnectResult) :
    ℕ → ℕ → List PooledConnection → Bool × List PooledConnection
  | 0, _, pool => (true, pool)
  | rounds + 1, i, pool =>
    if (connect i).allocHandle ≠ 0 then
      (false, pool)
    else if !sqlSucceeded (connect i).driverConnect then
      (false, pool)
    else
      connectAll connect rounds (i + 1) (pool ++ [⟨⟨(connect i).dbc⟩, i⟩])

/-- `DbManager::init`. -/
def DbManager.initPool (allocEnv : SqlReturn) (connect : ℕ → ConnectResult) (poolSize : ℕ) :
    Bool × List PooledConnection :=
  if allocEnv ≠ 0 then (false, []) else connectAll connect poolSize 0 []

theorem DbManager.connectAll_eq_true {connect : ℕ → ConnectResult} {rounds i : ℕ}
    {pool conns : List PooledConnection} (h : connectAll connect rounds i pool = (true, conns)) :
    conns = pool ++ (List.range' i rounds).map fun k => ⟨⟨(connect k).dbc⟩, k⟩ := by
  induction rounds generalizing i pool with
  | zero =>
    cases h
    exact (List.append_nil _).symm
  | succ rounds ih =>
    unfold connectAll at h
    split at h
    · cases h
    · split at h
      · cases h
      · rw [ih h, List.append_assoc]
        rfl

/-- `init` fills the pool with one connection for each round. -/
theorem DbManager.initPool_eq_true {allocEnv : SqlReturn} {connect : ℕ → ConnectResult} {poolSize : ℕ}
    {conns : List PooledConnection} (h : initPool allocEnv connect poolSize = (true, conns)) :
    conns.length = poolSize ∧ (conns.map (·.addr)).Nodup := by
  unfold initPool at h
  split at h
  · cases h
  · have hconns := connectAll_eq_true h
    rw [List.nil_append, ← List.range_eq_range'] at hconns
    have haddr : conns.map (·.addr) = List.range poolSize := by
      rw [hconns, List.map_map]
      exact List.map_id _
    refine ⟨?_, haddr ▸ List.nodup_range⟩
    rw [hconns, List.length_map, List.length_range]

/-! ## Calls -/

/-- The ODBC calls of `getAccountPassword`. -/
inductive OdbcCall where
  | allocHandle
  | prepare
  | bindParameter
  | execute
  | fetch
  | getData
  deriving DecidableEq, Repr

/-- Where a worker stands in `getAccountPassword`. -/
inductive CallPoint where
  | idle
  | acquire
  | odbc (call : OdbcCall) (conn : PooledConnection)
  | release (conn : PooledConnection) (answer : Option (List UInt8))
  | done (answer : Option (List UInt8))

/-- The connection that a call has taken and not given back. -/
def CallPoint.conn? : CallPoint → Option PooledConnection
  | .odbc _ conn => some conn
  | .release conn _ => some conn
  | _ => none

/-- Where the call goes behind an ODBC call. -/
def OdbcCall.next (conn : PooledConnection) (result : OdbcResult) : OdbcCall → CallPoint
  | .allocHandle => if !sqlSucceeded result.ret then .release conn none else .odbc .prepare conn
  | .prepare => if !sqlSucceeded result.ret then .release conn none else .odbc .bindParameter conn
  | .bindParameter => if !sqlSucceeded result.ret then .release conn none else .odbc .execute conn
  | .execute => if !sqlSucceeded result.ret then .release conn none else .odbc .fetch conn
  | .fetch =>
    if result.ret = sqlNoData then .release conn none
    else if !sqlSucceeded result.ret then .release conn none
    else .odbc .getData conn
  | .getData =>
    .release conn
      (if !sqlSucceeded result.ret || result.pwInd == sqlNullData then none else some (cString result.pwBuf))

/-- No exit forgets the connection. -/
theorem OdbcCall.conn?_next (call : OdbcCall) (conn : PooledConnection) (result : OdbcResult) :
    (call.next conn result).conn? = some conn := by
  cases call with
  | getData => rfl
  | fetch =>
    simp only [next]
    split
    · rfl
    · split <;> rfl
  | _ =>
    simp only [next]
    split <;> rfl

/-- What a call has done to the pool, and its end. -/
inductive CallEvent where
  | acquired (conn? : Option PooledConnection)
  | released (conn : PooledConnection)
  | returned (answer : Option (List UInt8))

/-- The pool and the workers. `trace` and `finished` are a record: of the call that a worker
    is in, and of the calls that have returned. -/
structure DbPool (W : ℕ) where
  pool : List PooledConnection
  workers : Fin W → CallPoint
  trace : Fin W → List CallEvent
  finished : List (List CallEvent)

namespace DbPool

variable {W : ℕ}

inductive Act (W : ℕ) where
  | call (w : Fin W)
  | acquire (w : Fin W)
  | answer (w : Fin W) (result : OdbcResult)
  | release (w : Fin W)
  | ret (w : Fin W)

/-- No worker is in a call. -/
def start (W : ℕ) (conns : List PooledConnection) : DbPool W := ⟨conns, fun _ => .idle, fun _ => [], []⟩

/-- A worker goes to another point of its call and records what it has done. -/
def goto (s : DbPool W) (w : Fin W) (point : CallPoint) (events : List CallEvent)
    (pool : List PooledConnection) : DbPool W :=
  { s with
    pool := pool
    workers := Function.update s.workers w point
    trace := Function.update s.trace w (s.trace w ++ events) }

/-- One step of one worker. -/
def step (s : DbPool W) : Act W → Option (DbPool W)
  | .call w =>
    match s.workers w with
    | .idle => some (s.goto w .acquire [] s.pool)
    | _ => none
  | .acquire w =>
    match s.workers w with
    | .acquire =>
      match s.pool with
      | [] => some (s.goto w (.done none) [.acquired none] [])
      | conn :: pool =>
        -- a connection without a handle is dropped and not pushed back
        if conn.dbc = 0 then some (s.goto w (.done none) [.acquired (some conn)] pool)
        else some (s.goto w (.odbc .allocHandle conn) [.acquired (some conn)] pool)
    | _ => none
  | .answer w result =>
    match s.workers w with
    | .odbc call conn => some (s.goto w (call.next conn result) [] s.pool)
    | _ => none
  | .release w =>
    match s.workers w with
    | .release conn answer => some (s.goto w (.done answer) [.released conn] (s.pool ++ [conn]))
    | _ => none
  | .ret w =>
    match s.workers w with
    | .done answer =>
      some
        { s with
          workers := Function.update s.workers w .idle
          trace := Function.update s.trace w []
          finished := s.finished ++ [s.trace w ++ [.returned answer]] }
    | _ => none

/-- What a step does. -/
inductive Moves (s : DbPool W) : Act W → DbPool W → Prop where
  | call (w : Fin W) (hw : s.workers w = .idle) : Moves s (.call w) (s.goto w .acquire [] s.pool)
  | acquireNone (w : Fin W) (hw : s.workers w = .acquire) (hpool : s.pool = []) :
      Moves s (.acquire w) (s.goto w (.done none) [.acquired none] [])
  | acquireNull (w : Fin W) (hw : s.workers w = .acquire) {conn : PooledConnection}
      {pool : List PooledConnection} (hpool : s.pool = conn :: pool) (hdbc : conn.dbc = 0) :
      Moves s (.acquire w) (s.goto w (.done none) [.acquired (some conn)] pool)
  | acquire (w : Fin W) (hw : s.workers w = .acquire) {conn : PooledConnection}
      {pool : List PooledConnection} (hpool : s.pool = conn :: pool) (hdbc : conn.dbc ≠ 0) :
      Moves s (.acquire w) (s.goto w (.odbc .allocHandle conn) [.acquired (some conn)] pool)
  | answer (w : Fin W) {call : OdbcCall} {conn : PooledConnection} (hw : s.workers w = .odbc call conn)
      (result : OdbcResult) : Moves s (.answer w result) (s.goto w (call.next conn result) [] s.pool)
  | release (w : Fin W) {conn : PooledConnection} {answer : Option (List UInt8)}
      (hw : s.workers w = .release conn answer) :
      Moves s (.release w) (s.goto w (.done answer) [.released conn] (s.pool ++ [conn]))
  | ret (w : Fin W) {answer : Option (List UInt8)} (hw : s.workers w = .done answer) :
      Moves s (.ret w)
        { s with
          workers := Function.update s.workers w .idle
          trace := Function.update s.trace w []
          finished := s.finished ++ [s.trace w ++ [.returned answer]] }

theorem moves_of_step {s s' : DbPool W} {a : Act W} (h : s.step a = some s') : s.Moves a s' := by
  cases a with
  | call w =>
    simp only [step] at h
    split at h
    next hw => cases h; exact .call w hw
    next => cases h
  | acquire w =>
    simp only [step] at h
    split at h
    next hw =>
      split at h
      next hpool => cases h; exact .acquireNone w hw hpool
      next hpool =>
        split at h
        next hdbc => cases h; exact .acquireNull w hw hpool hdbc
        next hdbc => cases h; exact .acquire w hw hpool hdbc
    next => cases h
  | answer w result =>
    simp only [step] at h
    split at h
    next hw => cases h; exact .answer w hw result
    next => cases h
  | release w =>
    simp only [step] at h
    split at h
    next hw => cases h; exact .release w hw
    next => cases h
  | ret w =>
    simp only [step] at h
    split at h
    next hw => cases h; exact .ret w hw
    next => cases h

/-! ## The invariant -/

/-- What the workers hold. -/
def held (s : DbPool W) : Fin W → Option PooledConnection := CallPoint.conn? ∘ s.workers

/-- A connection was taken and given back. -/
def Balanced (conns : List PooledConnection) (trace : List CallEvent) : Prop :=
  ∃ conn ∈ conns, trace = [.acquired (some conn), .released conn]

/-- The record of a call that stands at this point. -/
def TraceAt (conns : List PooledConnection) : CallPoint → List CallEvent → Prop
  | .idle, trace => trace = []
  | .acquire, trace => trace = []
  | .odbc _ conn, trace => trace = [.acquired (some conn)]
  | .release conn _, trace => trace = [.acquired (some conn)]
  | .done _, trace => Balanced conns trace

structure Inv (conns : List PooledConnection) (s : DbPool W) : Prop where
  owned : owned s.pool s.held = (conns : Multiset PooledConnection)
  trace : ∀ w, TraceAt conns (s.workers w) (s.trace w)
  finished : ∀ trace ∈ s.finished, ∃ front answer,
    Balanced conns front ∧ trace = front ++ [.returned answer]

variable {conns : List PooledConnection} {s s' : DbPool W}

theorem inv_start (W : ℕ) (conns : List PooledConnection) : Inv conns (start W conns) where
  owned := owned_of_idle fun _ => rfl
  trace _ := rfl
  finished := by simp [start]

theorem held_eq {w : Fin W} {point : CallPoint} (hw : s.workers w = point) : s.held w = point.conn? :=
  congrArg CallPoint.conn? hw

theorem held_goto (s : DbPool W) (w : Fin W) (point : CallPoint) (events : List CallEvent)
    (pool : List PooledConnection) :
    (s.goto w point events pool).held = Function.update s.held w point.conn? :=
  Function.comp_update CallPoint.conn? s.workers w point

/-- A step of one worker keeps the invariant when its own part does. -/
theorem Inv.goto (h : s.Inv conns) {w : Fin W} {point : CallPoint} {events : List CallEvent}
    {pool : List PooledConnection}
    (howned : Lib.Pool.owned pool (Function.update s.held w point.conn?) = Lib.Pool.owned s.pool s.held)
    (htrace : TraceAt conns point (s.trace w ++ events)) : (s.goto w point events pool).Inv conns where
  owned := by
    rw [held_goto]
    exact howned.trans h.owned
  trace := by
    intro w'
    by_cases hw : w' = w
    · subst hw
      simpa [DbPool.goto] using htrace
    · simpa [DbPool.goto, hw] using h.trace w'
  finished := h.finished

/-- A worker that goes on with what it holds. -/
theorem Inv.stay (h : s.Inv conns) {w : Fin W} {point : CallPoint}
    (hconn : point.conn? = (s.workers w).conn?) (htrace : TraceAt conns point (s.trace w)) :
    (s.goto w point [] s.pool).Inv conns := by
  have hheld : Function.update s.held w point.conn? = s.held := Function.update_eq_self_iff.mpr hconn
  exact h.goto (by rw [hheld]) (by rwa [List.append_nil])

theorem traceAt_of_conn? {point : CallPoint} {conn : PooledConnection} {trace : List CallEvent}
    (h : point.conn? = some conn) : TraceAt conns point trace ↔ trace = [.acquired (some conn)] := by
  cases point with
  | odbc call conn' => cases h; rfl
  | release conn' answer => cases h; rfl
  | idle => cases h
  | acquire => cases h
  | done answer => cases h

theorem Inv.mem_conns (h : s.Inv conns) {conn : PooledConnection}
    (hconn : conn ∈ s.pool ∨ ∃ w, s.held w = some conn) : conn ∈ conns := by
  rw [← Multiset.mem_coe, ← h.owned]
  exact mem_owned.mpr hconn

theorem Inv.mem_of_pool (h : s.Inv conns) {conn : PooledConnection} {pool : List PooledConnection}
    (hpool : s.pool = conn :: pool) : conn ∈ conns := by
  refine h.mem_conns (.inl ?_)
  rw [hpool]
  exact List.mem_cons_self

/-- A worker that holds nothing finds a connection with a handle. -/
theorem Inv.exists_pool (h : s.Inv conns) (hW : W ≤ conns.length) (hdbc : ∀ conn ∈ conns, conn.dbc ≠ 0)
    {w : Fin W} (hw : s.held w = none) : ∃ conn pool, s.pool = conn :: pool ∧ conn.dbc ≠ 0 := by
  have hcard : Fintype.card (Fin W) ≤ (Lib.Pool.owned s.pool s.held).card := by
    rw [h.owned, Fintype.card_fin, Multiset.coe_card]
    exact hW
  obtain ⟨conn, pool, hpool⟩ := exists_cons_of_card_le hcard hw
  exact ⟨conn, pool, hpool, hdbc conn (h.mem_of_pool hpool)⟩

theorem Inv.moves (h : s.Inv conns) (hW : W ≤ conns.length) (hdbc : ∀ conn ∈ conns, conn.dbc ≠ 0)
    {a : Act W} (hmoves : s.Moves a s') : s'.Inv conns := by
  cases hmoves with
  | call w hw =>
    have htrace := h.trace w
    rw [hw] at htrace
    exact h.stay (held_eq hw).symm htrace
  | acquireNone w hw hpool =>
    obtain ⟨conn, pool, hcons, _⟩ := h.exists_pool hW hdbc (held_eq hw)
    rw [hpool] at hcons
    cases hcons
  | @acquireNull w hw conn pool hpool hnull => exact absurd hnull (hdbc conn (h.mem_of_pool hpool))
  | @acquire w hw conn pool hpool _ =>
    have hidle : s.held w = none := held_eq hw
    have htrace := h.trace w
    rw [hw] at htrace
    refine h.goto ?_ ?_
    · rw [hpool]
      exact owned_take hidle
    · rw [show s.trace w = [] from htrace]
      rfl
  | @answer w call conn hw result =>
    have hconn : s.held w = some conn := held_eq hw
    have hnext := call.conn?_next conn result
    refine h.stay (hnext.trans hconn.symm) ((traceAt_of_conn? hnext).mpr ?_)
    exact (traceAt_of_conn? hconn).mp (h.trace w)
  | @release w conn answer hw =>
    have hconn : s.held w = some conn := held_eq hw
    have htrace := (traceAt_of_conn? hconn).mp (h.trace w)
    refine h.goto (owned_give hconn) ⟨conn, h.mem_conns (.inr ⟨w, hconn⟩), ?_⟩
    rw [htrace]
    rfl
  | @ret w answer hw =>
    have htrace := h.trace w
    rw [hw] at htrace
    have hidle : CallPoint.idle.conn? = s.held w := (held_eq hw).symm
    have hheld : CallPoint.conn? ∘ Function.update s.workers w .idle = s.held := by
      rw [Function.comp_update]
      exact Function.update_eq_self_iff.mpr hidle
    refine ⟨?_, ?_, ?_⟩
    · change Lib.Pool.owned s.pool (CallPoint.conn? ∘ Function.update s.workers w .idle) = _
      rw [hheld]
      exact h.owned
    · intro w'
      by_cases hw' : w' = w
      · subst hw'
        simp [TraceAt]
      · simpa [hw'] using h.trace w'
    · intro trace hmem
      rcases List.mem_append.mp hmem with hold | hnew
      · exact h.finished trace hold
      · exact ⟨s.trace w, answer, htrace, List.mem_singleton.mp hnew⟩

/-- Over every run of the workers: a connection is with one call at most and then not in the
    pool, a call that acquires gets a connection with a handle, every call that has returned
    took one connection and gave that one back once, and between calls the pool holds the
    connections of `init`. -/
theorem pool_conserved {P : ℕ} (hWP : W ≤ P) {allocEnv : SqlReturn} {connect : ℕ → ConnectResult}
    (hinit : DbManager.initPool allocEnv connect P = (true, conns))
    (hdbc : ∀ conn ∈ conns, conn.dbc ≠ 0) {as : List (Act W)}
    (hrun : run step (start W conns) as = some s) :
    (∀ w w' conn conn', (s.workers w).conn? = some conn → (s.workers w').conn? = some conn' →
        conn.addr = conn'.addr → w = w') ∧
      (∀ w conn, (s.workers w).conn? = some conn → conn ∉ s.pool) ∧
      (∀ w, s.workers w = .acquire → ∃ conn s', conn.dbc ≠ 0 ∧ s.step (.acquire w) = some s' ∧
        s'.workers w = .odbc .allocHandle conn) ∧
      (∀ trace ∈ s.finished, ∃ conn ∈ conns, ∃ answer,
        trace = [.acquired (some conn), .released conn, .returned answer]) ∧
      ((∀ w, s.workers w = .idle) → s.pool.Perm conns ∧ s.pool.length = P) := by
  obtain ⟨hlen, haddr⟩ := DbManager.initPool_eq_true hinit
  have hW : W ≤ conns.length := hlen ▸ hWP
  have hinv : s.Inv conns := run_induct
    (fun _ _ _ h _ hstep => Inv.moves h hW hdbc (moves_of_step hstep)) (inv_start W conns) (along_true _ _) hrun
  have hnodup : (Lib.Pool.owned s.pool s.held).Nodup := by
    rw [hinv.owned]
    exact Multiset.coe_nodup.mpr haddr.of_map
  refine ⟨?_, ?_, ?_, ?_, ?_⟩
  · intro w w' conn conn' hw hw' hsame
    have hconn : conn = conn' := List.inj_on_of_nodup_map haddr (hinv.mem_conns (.inr ⟨w, hw⟩))
      (hinv.mem_conns (.inr ⟨w', hw'⟩)) hsame
    subst hconn
    exact holder_unique hnodup hw hw'
  · intro w conn hw
    exact notMem_of_held hnodup hw
  · intro w hw
    obtain ⟨conn, pool, hpool, hconn⟩ := hinv.exists_pool hW hdbc (held_eq hw)
    refine ⟨conn, s.goto w (.odbc .allocHandle conn) [.acquired (some conn)] pool, hconn, ?_, ?_⟩
    · simp only [step, hw, hpool, if_neg hconn]
    · exact Function.update_self ..
  · intro trace hmem
    obtain ⟨front, answer, ⟨conn, hconn, rfl⟩, rfl⟩ := hinv.finished trace hmem
    exact ⟨conn, hconn, answer, rfl⟩
  · intro hidle
    have howned := hinv.owned
    rw [owned_of_idle fun w => held_eq (hidle w)] at howned
    have hperm := Multiset.coe_eq_coe.mp howned
    exact ⟨hperm, hperm.length_eq.trans hlen⟩

/-- The pool of `Core::initDatabase`, when every connection succeeds. -/
def initDatabase : List PooledConnection :=
  (DbManager.initPool 0 (fun i => ⟨0, i + 1, 0⟩) poolSize).2

/-- A lookup fails at `SQLPrepare` while another worker queries. -/
theorem pool_conserved_prepareFails :
    ∃ s, run step (start shardWorkerThread initDatabase)
        [.call 0, .call 1, .acquire 1, .acquire 0, .answer 0 ⟨0, [], 0⟩, .answer 0 ⟨-1, [], 0⟩, .release 0,
          .ret 0] = some s ∧
      s.finished.length = 1 ∧
      ∀ trace ∈ s.finished, ∃ conn ∈ initDatabase, ∃ answer,
        trace = [.acquired (some conn), .released conn, .returned answer] := by
  have hdbc : ∀ conn ∈ initDatabase, conn.dbc ≠ 0 := by decide
  obtain ⟨s, hrun, hcount⟩ : ∃ s, run step (start shardWorkerThread initDatabase)
      [.call 0, .call 1, .acquire 1, .acquire 0, .answer 0 ⟨0, [], 0⟩, .answer 0 ⟨-1, [], 0⟩, .release 0,
        .ret 0] = some s ∧ s.finished.length = 1 := ⟨_, rfl, rfl⟩
  have hinit : DbManager.initPool 0 (fun i => ⟨0, i + 1, 0⟩) poolSize = (true, initDatabase) := rfl
  obtain ⟨_, _, _, hfinished, _⟩ := pool_conserved (Nat.le_refl poolSize) hinit hdbc hrun
  exact ⟨s, hrun, hcount, hfinished⟩

/-! ## Refinement

`DbCalls` has calls of two steps, begin and end, and looks at handles only. The calls
here are calls of that system. -/

/-- What `DbCalls` sees. -/
def toDbCalls (s : DbPool shardWorkerThread) : DbCalls where
  db := ⟨s.pool.map (·.toDbConnection)⟩
  held w := (s.held w).map (·.toDbConnection)

theorem toDbCalls_goto (s : DbPool shardWorkerThread) (w : Fin shardWorkerThread) (point : CallPoint)
    (events : List CallEvent) (pool : List PooledConnection) :
    (s.goto w point events pool).toDbCalls =
      ⟨⟨pool.map (·.toDbConnection)⟩,
        Function.update s.toDbCalls.held w (point.conn?.map (·.toDbConnection))⟩ := by
  have hheld : (fun w' => ((s.goto w point events pool).held w').map (·.toDbConnection)) =
      Function.update s.toDbCalls.held w (point.conn?.map (·.toDbConnection)) := by
    rw [held_goto]
    exact Function.comp_update (Option.map (·.toDbConnection)) s.held w point.conn?
  exact congrArg (DbCalls.mk _) hheld

/-- A step that goes on with the same connection is not seen. -/
theorem toDbCalls_stay {s : DbPool shardWorkerThread} {w : Fin shardWorkerThread} {point : CallPoint}
    (events : List CallEvent) (hconn : point.conn? = s.held w) :
    (s.goto w point events s.pool).toDbCalls = s.toDbCalls := by
  rw [toDbCalls_goto, hconn]
  exact congrArg (DbCalls.mk _) (Function.update_eq_self w s.toDbCalls.held)

theorem Inv.refines {s s' : DbPool shardWorkerThread} {a : Act shardWorkerThread} (h : s.Inv conns)
    (hdbc : ∀ conn ∈ conns, conn.dbc ≠ 0) (hmoves : s.Moves a s') :
    s'.toDbCalls = s.toDbCalls ∨ ∃ a, s.toDbCalls.step a = some s'.toDbCalls := by
  cases hmoves with
  | call w hw => exact .inl (toDbCalls_stay [] (held_eq hw).symm)
  | acquireNone w hw hpool =>
    left
    have hstay : (s.goto w (.done none) [.acquired none] s.pool).toDbCalls = s.toDbCalls :=
      toDbCalls_stay [.acquired none] (held_eq hw).symm
    rwa [hpool] at hstay
  | @acquireNull w hw conn pool hpool hnull => exact absurd hnull (hdbc conn (h.mem_of_pool hpool))
  | @acquire w hw conn pool hpool _ =>
    right
    refine ⟨.acquire w, ?_⟩
    have hidle : s.toDbCalls.held w = none := by
      change (s.held w).map _ = none
      rw [held_eq hw]
      rfl
    have hdb : s.toDbCalls.db.acquire = (some conn.toDbConnection, ⟨pool.map (·.toDbConnection)⟩) := by
      simp only [DbManager.acquire, toDbCalls, hpool, List.map_cons]
    simp only [DbCalls.step, hidle, hdb]
    rw [toDbCalls_goto]
    rfl
  | @answer w call conn hw result =>
    exact .inl (toDbCalls_stay [] ((call.conn?_next conn result).trans (held_eq hw).symm))
  | @release w conn answer hw =>
    right
    refine ⟨.release w, ?_⟩
    have hconn : s.toDbCalls.held w = some conn.toDbConnection := by
      change (s.held w).map _ = _
      rw [held_eq hw]
      rfl
    simp only [DbCalls.step, hconn]
    rw [toDbCalls_goto, List.map_append]
    rfl
  | @ret w answer hw =>
    have hstay : (s.goto w .idle [] s.pool).toDbCalls = s.toDbCalls :=
      toDbCalls_stay [] (held_eq hw).symm
    exact .inl hstay

/-- Every run on connections with handles is a run of `DbCalls`. -/
theorem run_refines (hW : shardWorkerThread ≤ conns.length) (hdbc : ∀ conn ∈ conns, conn.dbc ≠ 0)
    {as : List (Act shardWorkerThread)} {s : DbPool shardWorkerThread}
    (hrun : run step (start shardWorkerThread conns) as = some s) :
    ∃ bs, run DbCalls.step (start shardWorkerThread conns).toDbCalls bs = some s.toDbCalls := by
  have hsim : s.Inv conns ∧
      ∃ bs, run DbCalls.step (start shardWorkerThread conns).toDbCalls bs = some s.toDbCalls := by
    refine run_induct (I := fun s => s.Inv conns ∧
        ∃ bs, run DbCalls.step (start shardWorkerThread conns).toDbCalls bs = some s.toDbCalls)
      ?_ ⟨inv_start _ conns, [], rfl⟩ (along_true _ _) hrun
    rintro s a s' ⟨hinv, bs, hbs⟩ _ hstep
    have hmoves := moves_of_step hstep
    refine ⟨hinv.moves hW hdbc hmoves, ?_⟩
    rcases hinv.refines hdbc hmoves with hsame | ⟨b, hb⟩
    · exact ⟨bs, hsame ▸ hbs⟩
    · exact ⟨bs ++ [b], run_concat_eq_some.mpr ⟨_, hbs, hb⟩⟩
  exact hsim.2

end DbPool

/-! ## Answers

`DbManager.query` has the table and tells which ODBC calls succeed. A driver that answers
call by call accordingly leads every call to the answer of `query`. -/

/-- The ODBC calls that are left, with their answers; there are six of them. -/
def CallPoint.finish (answers : OdbcCall → OdbcResult) : ℕ → CallPoint → CallPoint
  | calls + 1, .odbc call conn => finish answers calls (call.next conn (answers call))
  | _, point => point

/-- The answers of a driver on the table when the calls succeed that `odbc` names. -/
structure OdbcCalls.Answered (odbc : OdbcCalls) (table : AccountTable) (id : List UInt8)
    (answers : OdbcCall → OdbcResult) : Prop where
  allocHandle : sqlSucceeded (answers .allocHandle).ret = odbc.allocHandle
  prepare : sqlSucceeded (answers .prepare).ret = odbc.prepare
  bindParameter : sqlSucceeded (answers .bindParameter).ret = odbc.bindParameter
  execute : sqlSucceeded (answers .execute).ret = odbc.execute
  noRow : table id = none → (answers .fetch).ret = sqlNoData
  row : ∀ password, table id = some password →
    (answers .fetch).ret ≠ sqlNoData ∧ sqlSucceeded (answers .fetch).ret = odbc.fetch
  null : table id = some none → (answers .getData).pwInd = sqlNullData
  stored : ∀ stored, table id = some (some stored) →
    sqlSucceeded (answers .getData).ret = odbc.getData ∧ (answers .getData).pwInd ≠ sqlNullData ∧
      (answers .getData).pwBuf = pwBuf stored

/-- A driver on the table that fails the calls that `odbc` says. -/
def OdbcCalls.driver (odbc : OdbcCalls) (table : AccountTable) (id : List UInt8) : OdbcCall → OdbcResult
  | .allocHandle => ⟨if odbc.allocHandle then 0 else -1, [], 0⟩
  | .prepare => ⟨if odbc.prepare then 0 else -1, [], 0⟩
  | .bindParameter => ⟨if odbc.bindParameter then 0 else -1, [], 0⟩
  | .execute => ⟨if odbc.execute then 0 else -1, [], 0⟩
  | .fetch =>
    match table id with
    | none => ⟨sqlNoData, [], 0⟩
    | some _ => ⟨if odbc.fetch then 0 else -1, [], 0⟩
  | .getData =>
    match table id with
    | some (some stored) => ⟨if odbc.getData then 0 else -1, pwBuf stored, stored.length⟩
    | _ => ⟨0, [], sqlNullData⟩

theorem OdbcCalls.answered_driver (odbc : OdbcCalls) (table : AccountTable) (id : List UInt8) :
    odbc.Answered table id (odbc.driver table id) := by
  have hret : ∀ ok : Bool, sqlSucceeded (if ok then 0 else -1) = ok := by decide
  constructor
  case noRow => intro hrow; simp only [driver, hrow]
  case row =>
    intro password hrow
    simp only [driver, hrow]
    exact ⟨by split <;> decide, hret _⟩
  case null => intro hrow; simp only [driver, hrow]
  case stored =>
    intro stored hrow
    simp only [driver, hrow]
    exact ⟨hret _, by unfold sqlNullData; omega, trivial⟩
  all_goals exact hret _

/-- Call by call a worker comes to the answer of `DbManager.query`. -/
theorem CallPoint.finish_eq_query {odbc : OdbcCalls} {table : AccountTable} {id : List UInt8}
    {answers : OdbcCall → OdbcResult} (h : odbc.Answered table id answers)
    (conn : PooledConnection) :
    finish answers 6 (.odbc .allocHandle conn) = .release conn (DbManager.query odbc table id) := by
  -- one early exit after the other, as both have them
  simp only [finish, OdbcCall.next, DbManager.query, h.allocHandle]
  cases odbc.allocHandle
  case false => rfl
  simp only [Bool.not_true, Bool.false_eq_true, if_false, finish, OdbcCall.next, h.prepare]
  cases odbc.prepare
  case false => rfl
  simp only [Bool.not_true, Bool.false_eq_true, if_false, finish, OdbcCall.next, h.bindParameter]
  cases odbc.bindParameter
  case false => rfl
  simp only [Bool.not_true, Bool.false_eq_true, if_false, finish, OdbcCall.next, h.execute]
  cases odbc.execute
  case false => rfl
  simp only [Bool.not_true, Bool.false_eq_true, if_false, finish, OdbcCall.next]
  cases hrow : table id with
  | none => simp only [if_pos (h.noRow hrow), finish]
  | some password =>
    obtain ⟨hdata, hfetch⟩ := h.row password hrow
    simp only [if_neg hdata, hfetch]
    cases odbc.fetch
    case false => rfl
    cases password with
    | none => simp [finish, OdbcCall.next, h.null hrow]
    | some stored =>
      obtain ⟨hget, hind, hbuf⟩ := h.stored stored hrow
      cases hgot : odbc.getData <;> simp [finish, OdbcCall.next, hget, hind, hbuf, hgot]

/-- The answers lead a call that stands at this point to this result. -/
def CallPoint.LeadsTo (answers : OdbcCall → OdbcResult) (answer : Option (List UInt8)) :
    CallPoint → Prop
  | .odbc call conn => ∃ calls, finish answers calls (.odbc call conn) = .release conn answer
  | .release _ result => result = answer
  | _ => True

theorem OdbcCall.leadsTo_next {answers : OdbcCall → OdbcResult} {answer : Option (List UInt8)}
    {call : OdbcCall} {conn : PooledConnection}
    (h : (CallPoint.odbc call conn).LeadsTo answers answer) :
    (call.next conn (answers call)).LeadsTo answers answer := by
  obtain ⟨calls, hcalls⟩ := h
  cases calls with
  | zero => cases hcalls
  | succ calls =>
    simp only [CallPoint.finish] at hcalls
    have hconn := call.conn?_next conn (answers call)
    cases hnext : call.next conn (answers call) with
    | odbc call' conn' =>
      rw [hnext] at hcalls hconn
      cases hconn
      exact ⟨calls, hcalls⟩
    | release conn' result =>
      rw [hnext] at hcalls
      cases calls <;> (cases hcalls; rfl)
    | _ => trivial

namespace DbPool

variable {W : ℕ} {s s' : DbPool W}

/-- The ODBC calls of a worker are answered so. -/
def AnsweredBy (w : Fin W) (answers : OdbcCall → OdbcResult) (s : DbPool W) (a : Act W) : Prop :=
  ∀ result call conn, a = .answer w result → s.workers w = .odbc call conn → result = answers call

theorem leadsTo_goto {w w' : Fin W} {point : CallPoint} {events : List CallEvent}
    {pool : List PooledConnection} {answers : OdbcCall → OdbcResult} {answer : Option (List UInt8)}
    (h : (s.workers w).LeadsTo answers answer) (hpoint : w = w' → point.LeadsTo answers answer) :
    ((s.goto w' point events pool).workers w).LeadsTo answers answer := by
  by_cases hw : w = w'
  · subst hw
    simpa [goto] using hpoint rfl
  · simpa [goto, hw] using h

theorem leadsTo_of_moves {w : Fin W} {a : Act W} {odbc : OdbcCalls} {table : AccountTable}
    {id : List UInt8} {answers : OdbcCall → OdbcResult} (hodbc : odbc.Answered table id answers)
    (h : (s.workers w).LeadsTo answers (DbManager.query odbc table id))
    (ha : AnsweredBy w answers s a) (hmoves : s.Moves a s') :
    (s'.workers w).LeadsTo answers (DbManager.query odbc table id) := by
  cases hmoves with
  | call w' hw' => exact leadsTo_goto h fun _ => trivial
  | acquireNone w' hw' hpool => exact leadsTo_goto h fun _ => trivial
  | acquireNull w' hw' hpool hnull => exact leadsTo_goto h fun _ => trivial
  | @acquire w' hw' conn pool hpool hdbc =>
    exact leadsTo_goto h fun _ => ⟨6, CallPoint.finish_eq_query hodbc conn⟩
  | @answer w' call conn hw' result =>
    refine leadsTo_goto h fun hw => ?_
    subst hw
    rw [ha result call conn rfl hw']
    exact OdbcCall.leadsTo_next (hw' ▸ h)
  | release w' hw' => exact leadsTo_goto h fun _ => trivial
  | ret w' hw' =>
    have hgoto : ((s.goto w' .idle [] s.pool).workers w).LeadsTo answers (DbManager.query odbc table id) :=
      leadsTo_goto h fun _ => trivial
    exact hgoto

/-- Whatever the other workers do in between: with a driver on the table, a lookup that has
    got a connection gives it back with the answer of `DbManager.query`. -/
theorem answer_eq_query {w : Fin W} {odbc : OdbcCalls} {table : AccountTable} {id : List UInt8}
    {answers : OdbcCall → OdbcResult} (hodbc : odbc.Answered table id answers) {as : List (Act W)}
    (hidle : s.workers w = .idle) (hdriver : Along step (AnsweredBy w answers) s as)
    (hrun : run step s as = some s') {conn : PooledConnection} {answer : Option (List UInt8)}
    (hw : s'.workers w = .release conn answer) : answer = DbManager.query odbc table id := by
  have hleads : (s'.workers w).LeadsTo answers (DbManager.query odbc table id) :=
    run_induct (fun _ _ _ h ha hstep => leadsTo_of_moves hodbc h ha (moves_of_step hstep))
      (I := fun s => (s.workers w).LeadsTo answers (DbManager.query odbc table id))
      (by rw [hidle]; trivial) hdriver hrun
  rw [hw] at hleads
  exact hleads

end DbPool

end NfEngine
