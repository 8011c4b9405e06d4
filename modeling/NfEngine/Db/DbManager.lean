-- SUMMARY: The account lookup over ODBC: the connection pool of the shards, the password buffer, and which logins are decided rightly.
import Mathlib.Data.List.TakeWhile
import NfEngine.Execution.Action
import NfEngine.Lib.Pool
import NfEngine.Lib.Transition

/-!
# The account database

`LoginContext::verify` compares the password of a request with the one that
`DbManager::getAccountPassword` reads. A shard takes a connection out of the pool for
the time of the query; there are as many connections as shards, so a shard always finds
one.

The stored password passes through a buffer of 256 bytes that is then read as a C
string. What does not survive that way, a password of more than 255 bytes or with a NUL
byte in it, is refused, and its beginning is accepted in its place.
-/

namespace NfEngine

open Lib Lib.Transition

/-- `dbo.account`: the row of a user name, with its password column, which may be NULL. -/
abbrev AccountTable := List UInt8 → Option (Option (List UInt8))

/-- A pooled connection; `SQL_NULL_HDBC` is 0. -/
structure DbConnection where
  dbc : ℕ

structure DbManager where
  pool : List DbConnection

/-- Which of the ODBC calls of a query succeed. -/
structure OdbcCalls where
  allocHandle : Bool
  prepare : Bool
  bindParameter : Bool
  execute : Bool
  fetch : Bool
  getData : Bool

/-- All of them. -/
def OdbcCalls.ok : OdbcCalls := ⟨true, true, true, true, true, true⟩

/-- `config.poolSize`, as `Core::initDatabase` sets it. -/
def poolSize : ℕ := 4

/-- `m_shardWorkerThread`. -/
abbrev shardWorkerThread : ℕ := 4

/-- `sizeof(pwBuf)`. -/
def pwBufSize : ℕ := 256

/-- `pwBuf` behind `SQLGetData`: as much of the data as leaves room for a NUL, in a buffer
    of zeros. -/
def pwBuf (stored : List UInt8) : List UInt8 :=
  let data := stored.take (pwBufSize - 1)
  data ++ List.replicate (pwBufSize - data.length) 0

/-- `std::string(const char*)`. -/
def cString (buf : List UInt8) : List UInt8 := buf.takeWhile (· ≠ 0)

namespace DbManager

/-- `init`, when every connection succeeds. -/
def init : DbManager := ⟨(List.range poolSize).map fun i => ⟨i + 1⟩⟩

def acquire (db : DbManager) : Option DbConnection × DbManager :=
  match db.pool with
  | [] => (none, db)
  | conn :: pool => (some conn, ⟨pool⟩)

def release (db : DbManager) (conn : DbConnection) : DbManager := ⟨db.pool ++ [conn]⟩

/-- The statement of `getAccountPassword`, on the connection it has acquired. -/
def query (odbc : OdbcCalls) (table : AccountTable) (id : List UInt8) : Option (List UInt8) :=
  if !odbc.allocHandle then none
  else if !odbc.prepare then none
  else if !odbc.bindParameter then none
  else if !odbc.execute then none
  else
    match table id with
    -- `SQL_NO_DATA`
    | none => none
    | some password =>
      if !odbc.fetch then
        none
      else
        match password with
        -- `SQL_NULL_DATA`
        | none => none
        | some stored => if !odbc.getData then none else some (cString (pwBuf stored))

def getAccountPassword (db : DbManager) (odbc : OdbcCalls) (table : AccountTable) (id : List UInt8) :
    Option (List UInt8) × DbManager :=
  match db.acquire with
  | (none, db') => (none, db')
  | (some conn, db') =>
    if conn.dbc = 0 then (none, db') else (query odbc table id, db'.release conn)

/-- Every path of the query gives the connection back. -/
theorem getAccountPassword_of_pool {db : DbManager} {conn : DbConnection} {pool : List DbConnection}
    (hpool : db.pool = conn :: pool) (hconn : conn.dbc ≠ 0) (odbc : OdbcCalls) (table : AccountTable)
    (id : List UInt8) :
    db.getAccountPassword odbc table id = (query odbc table id, ⟨pool ++ [conn]⟩) := by
  unfold getAccountPassword acquire
  rw [hpool]
  exact if_neg hconn

end DbManager

/-! ## The pool -/

/-- The database manager while the shards use it: the connection each of them holds. -/
structure DbCalls where
  db : DbManager
  held : Fin shardWorkerThread → Option DbConnection

namespace DbCalls

/-- A shard begins or ends its call of `getAccountPassword`. -/
inductive Act where
  | acquire (shard : Fin shardWorkerThread)
  | release (shard : Fin shardWorkerThread)

def init : DbCalls := ⟨.init, fun _ => none⟩

def step (s : DbCalls) : Act → Option DbCalls
  | .acquire shard =>
    match s.held shard with
    | some _ => none
    | none =>
      match s.db.acquire with
      -- the call returns at once
      | (none, _) => some s
      | (some conn, db) => some ⟨db, Function.update s.held shard (some conn)⟩
  | .release shard =>
    match s.held shard with
    | none => none
    | some conn => some ⟨s.db.release conn, Function.update s.held shard none⟩

/-- The connections of a shard, for counting. -/
def inUse (held : Option DbConnection) : ℕ := held.toList.length

/-- Every connection is in the pool or with a shard, and none of them is null. -/
structure Inv (s : DbCalls) : Prop where
  count : s.db.pool.length + ∑ shard, inUse (s.held shard) = poolSize
  pool : ∀ conn ∈ s.db.pool, conn.dbc ≠ 0
  held : ∀ shard, ∀ conn ∈ s.held shard, conn.dbc ≠ 0

theorem inv_init : Inv init where
  count := by decide
  pool := by
    intro conn hmem
    obtain ⟨i, _, rfl⟩ := List.mem_map.mp hmem
    exact Nat.succ_ne_zero i
  held := nofun

namespace Inv

variable {s s' : DbCalls}

/-- A shard that holds no connection leaves one in the pool. -/
theorem exists_pool (h : s.Inv) {shard : Fin shardWorkerThread} (hidle : s.held shard = none) :
    ∃ conn pool, s.db.pool = conn :: pool ∧ conn.dbc ≠ 0 := by
  have hcard : Fintype.card (Fin shardWorkerThread) ≤ (Pool.owned s.db.pool s.held).card := by
    rw [Fintype.card_fin, Pool.card_owned]
    exact h.count.ge
  obtain ⟨conn, pool, hpool⟩ := Pool.exists_cons_of_card_le hcard hidle
  exact ⟨conn, pool, hpool, h.pool conn (hpool ▸ List.mem_cons_self)⟩

/-- Connections move between the pool and a shard. -/
theorem move (h : s.Inv) {shard : Fin shardWorkerThread} {pool : List DbConnection}
    {conn? : Option DbConnection}
    (hcount : pool.length + inUse conn? = s.db.pool.length + inUse (s.held shard))
    (hpool : ∀ conn ∈ pool, conn.dbc ≠ 0) (hconn : ∀ conn ∈ conn?, conn.dbc ≠ 0) :
    Inv ⟨⟨pool⟩, Function.update s.held shard conn?⟩ where
  count := by
    have hold := h.count
    have hsum := sum_update_add inUse s.held shard conn?
    change pool.length + ∑ i, inUse (Function.update s.held shard conn? i) = poolSize
    omega
  pool := hpool
  held := by
    intro i conn hmem
    change conn ∈ Function.update s.held shard conn? i at hmem
    by_cases hi : i = shard
    · rw [hi, Function.update_self] at hmem
      exact hconn conn hmem
    · rw [Function.update_of_ne hi] at hmem
      exact h.held i conn hmem

theorem step {a : Act} (h : s.Inv) (hstep : s.step a = some s') : s'.Inv := by
  cases a with
  | acquire shard =>
    cases hheld : s.held shard with
    | some conn =>
      simp only [DbCalls.step, hheld] at hstep
      cases hstep
    | none =>
      obtain ⟨conn, pool, hpool, hconn⟩ := h.exists_pool hheld
      simp only [DbCalls.step, hheld, DbManager.acquire, hpool] at hstep
      cases hstep
      refine h.move (by rw [hpool, hheld]; rfl) (fun other hmem => ?_) (fun other hother => ?_)
      · exact h.pool other (hpool ▸ List.mem_cons_of_mem conn hmem)
      · cases hother
        exact hconn
  | release shard =>
    cases hheld : s.held shard with
    | none =>
      simp only [DbCalls.step, hheld] at hstep
      cases hstep
    | some conn =>
      simp only [DbCalls.step, hheld] at hstep
      cases hstep
      refine h.move (by rw [hheld, List.length_append]; rfl) (fun other hmem => ?_) nofun
      rcases List.mem_append.mp hmem with hold | hnew
      · exact h.pool other hold
      · rw [List.mem_singleton.mp hnew]
        exact h.held shard conn hheld

end Inv

end DbCalls

/-! ## The password -/

/-- A password that comes back from the buffer as it was stored. -/
def Intact (stored : List UInt8) : Prop := stored.length ≤ 255 ∧ 0 ∉ stored

theorem cString_pwBuf (stored : List UInt8) :
    cString (pwBuf stored) = (stored.take 255).takeWhile (· ≠ 0) := by
  have hlen : (stored.take 255).length ≤ 255 := by
    rw [List.length_take]
    exact Nat.min_le_left _ _
  obtain ⟨k, hk⟩ : ∃ k, 256 - (stored.take 255).length = k + 1 := ⟨255 - (stored.take 255).length, by omega⟩
  have hbuf : pwBuf stored = stored.take 255 ++ 0 :: List.replicate k 0 := by
    change stored.take 255 ++ List.replicate (256 - (stored.take 255).length) 0 = _
    rw [hk, List.replicate_succ]
  rw [cString, hbuf, List.takeWhile_append]
  split
  next hall =>
    rw [List.takeWhile_cons_of_neg (by decide), List.append_nil]
    exact ((List.takeWhile_prefix _).eq_of_length hall).symm
  · rfl

theorem cString_pwBuf_eq_iff (stored : List UInt8) : cString (pwBuf stored) = stored ↔ Intact stored := by
  rw [cString_pwBuf]
  constructor
  · intro heq
    have hle : stored.length ≤ 255 := by
      have hlen := (List.takeWhile_prefix (· ≠ 0) (l := stored.take 255)).length_le
      rw [heq, List.length_take] at hlen
      exact hlen.trans (Nat.min_le_left _ _)
    refine ⟨hle, fun hzero => ?_⟩
    rw [List.take_of_length_le hle, List.takeWhile_eq_self_iff] at heq
    exact absurd rfl (of_decide_eq_true (heq 0 hzero))
  · rintro ⟨hle, hzero⟩
    rw [List.take_of_length_le hle, List.takeWhile_eq_self_iff]
    intro b hb
    exact decide_eq_true fun hb0 => hzero (hb0 ▸ hb)

theorem DbManager.query_ok (table : AccountTable) (id : List UInt8) :
    query .ok table id = (table id).bind fun password => password.map fun stored => cString (pwBuf stored) := by
  unfold query OdbcCalls.ok
  cases table id with
  | none => rfl
  | some password => cases password <;> rfl

/-- `verify` compares with what the buffer has left of the stored password. -/
theorem LoginContext.verify_eq_true {getAccountPassword : List UInt8 → Option (List UInt8)}
    {id pw : List UInt8} :
    verify getAccountPassword id pw = true ↔ getAccountPassword id = some pw := by
  unfold verify
  cases getAccountPassword id with
  | none => simp
  | some dbPw => simp

namespace DbCalls

/-- Whatever the shards have done before: a login is decided rightly exactly when the
    stored password survives the buffer, or the request gives neither it nor what the
    buffer has left of it: its first 255 bytes, up to a NUL. -/
theorem verify_right_iff (table : AccountTable) (as : List Act) (s : DbCalls)
    (hrun : run step init as = some s) (shard : Fin shardWorkerThread) (hidle : s.held shard = none)
    (id pw : List UInt8) :
    (LoginContext.verify (fun id => (s.db.getAccountPassword .ok table id).1) id pw = true ↔
        table id = some (some pw)) ↔
      ∀ stored, table id = some (some stored) →
        Intact stored ∨ pw ≠ stored ∧ pw ≠ (stored.take 255).takeWhile (· ≠ 0) := by
  have hinv : s.Inv := run_induct (fun _ _ _ h _ hstep => Inv.step h hstep) inv_init
    (along_true _ _) hrun
  obtain ⟨conn, pool, hpool, hconn⟩ := hinv.exists_pool hidle
  simp only [LoginContext.verify_eq_true, DbManager.getAccountPassword_of_pool hpool hconn,
    DbManager.query_ok]
  cases hrow : table id with
  | none => simp
  | some password =>
    cases password with
    | none => simp
    | some stored =>
      have hintact := cString_pwBuf_eq_iff stored
      simp only [Option.bind_some, Option.map_some, Option.some.injEq, forall_eq', ← hintact,
        ← cString_pwBuf]
      constructor
      · intro hiff
        by_cases heq : cString (pwBuf stored) = stored
        · exact .inl heq
        · refine .inr ⟨fun hpw => heq ?_, fun hpw => heq ?_⟩
          · rw [hpw] at hiff
            exact hiff.mpr rfl
          · rw [hpw] at hiff
            exact (hiff.mp rfl).symm
      · rintro (heq | ⟨hne, hne'⟩)
        · rw [heq]
        · exact iff_of_false (fun h => hne' h.symm) fun h => hne h.symm

/-- While two other shards query, a short password is decided rightly. -/
theorem verify_right_short :
    ∃ s, run step init [.acquire 0, .acquire 2] = some s ∧ s.held 1 = none ∧
      (LoginContext.verify (fun id => (s.db.getAccountPassword .ok (fun _ => some (some [112, 119])) id).1)
        [97] [112, 119] = true ↔ (some (some [112, 119]) : Option (Option (List UInt8))) = some (some [112, 119])) := by
  refine ⟨_, rfl, rfl, (verify_right_iff (fun _ => some (some [112, 119])) [.acquire 0, .acquire 2] _ rfl 1
    rfl [97] [112, 119]).mpr ?_⟩
  intro stored hstored
  cases hstored
  exact .inl ⟨by decide, by decide⟩

/-- Account `a` has a password of 256 bytes: the request that gives it is refused, and the
    one that gives all but its last byte is accepted. -/
theorem longPassword_refused :
    ∃ stored : List UInt8, stored.length = 256 ∧
      LoginContext.verify (fun id => (init.db.getAccountPassword .ok (fun _ => some (some stored)) id).1)
        [97] stored = false ∧
      LoginContext.verify (fun id => (init.db.getAccountPassword .ok (fun _ => some (some stored)) id).1)
        [97] (stored.take 255) = true := by
  refine ⟨List.replicate 256 112, List.length_replicate .., by decide +kernel, by decide +kernel⟩

end DbCalls

end NfEngine
