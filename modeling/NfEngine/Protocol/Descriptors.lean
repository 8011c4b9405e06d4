-- SUMMARY: Descriptors of accepted connections: who holds them, how they move between the reactors and how they are closed.
import NfEngine.Algorithm.LockQueue
import NfEngine.Lib.Map

/-!
# Descriptors and their holders

The kernel's descriptor table, the connection tables of the two reactors and the
handover queue between them. A descriptor number is reused after it is closed,
so every accepted connection gets an incarnation number, and the tables carry
the incarnation they were filled with; no operation reads it. Each `::close` is
recorded with what the number referred to and which incarnation the closing
reactor held under it.

`Custody` is the invariant of the operations that close only what they hold:
every open incarnation has exactly one holder.
-/

namespace NfEngine

open Lib

/-- What an open descriptor number refers to: an accepted connection, or anything
    else the process has opened. -/
inductive Desc where
  | conn (inc : ℕ)
  | other
  deriving DecidableEq

def Desc.inc? : Desc → Option ℕ
  | .conn inc => some inc
  | .other => none

/-- A call of `::close`: what the number referred to, and the incarnation that the
    caller held under it. -/
structure CloseRecord where
  fd : Int
  desc : Option Desc
  owner : Option ℕ

structure Net where
  kernel : Map Int Desc
  accepted : ℕ
  tcpConns : Map Int ℕ
  handoverQueue : List (Int × ℕ)
  tlsConns : Map Int ℕ
  closes : List CloseRecord

namespace Net

def init : Net := ⟨.empty, 0, .empty, [], .empty, []⟩

/-- `::close`. -/
def close (n : Net) (fd : Int) (owner : Option ℕ) : Net :=
  { n with
    kernel := n.kernel.erase fd
    closes := n.closes ++ [⟨fd, n.kernel.find fd, owner⟩] }

/-- One round of `TcpReactor::acceptConnection`: the kernel returns a number that is
    not open. -/
def acceptConnection (n : Net) (fd : Int) : Option Net :=
  if fd < 0 ∨ n.kernel.contains fd = true then
    none
  else
    some { n with
      kernel := n.kernel.insert fd (.conn n.accepted)
      accepted := n.accepted + 1
      tcpConns := n.tcpConns.emplace fd n.accepted }

/-- `TcpReactor::closeConnection`. -/
def tcpCloseConnection (n : Net) (fd : Int) : Net :=
  let closed := n.close fd (n.tcpConns.find fd)
  { closed with tcpConns := closed.tcpConns.erase fd }

/-- `TlsReactor::closeConnection`. -/
def tlsCloseConnection (n : Net) (fd : Int) : Net :=
  let closed := n.close fd (n.tlsConns.find fd)
  { closed with tlsConns := closed.tlsConns.erase fd }

/-- `TlsReactor::handover`, which closes the descriptor when it cannot make it
    non-blocking or the queue is full. -/
def handover (n : Net) (fd : Int) (inc : ℕ) (enqueued : Bool) : Net :=
  if enqueued then
    { n with handoverQueue := n.handoverQueue ++ [(fd, inc)] }
  else
    n.close fd (some inc)

/-- `TcpReactor::handoverToTls`. -/
def handoverToTls (n : Net) (fd : Int) (enqueued : Bool) : Net :=
  match n.tcpConns.find fd with
  | none => n.tcpCloseConnection fd
  | some inc => { n with tcpConns := n.tcpConns.erase fd }.handover fd inc enqueued

/-- One round of `TlsReactor::processHandover`. -/
def processHandover (n : Net) (sslNew : Bool) : Option Net :=
  match n.handoverQueue with
  | [] => none
  | (fd, inc) :: items =>
    if sslNew then
      some { n with handoverQueue := items, tlsConns := n.tlsConns.emplace fd inc }
    else
      some ({ n with handoverQueue := items }.close fd (some inc))

/-! ## The handover queue

`processHandover` calls `dequeueAll` and goes through what it gets. `handoverQueue` is what it
has still to go through, followed by what is in the `LockQueue`. -/

section HandoverQueue

variable {n n' : Net} {capacity : ℕ} {out items items' : List (Int × ℕ)} {fd : Int} {inc : ℕ}

/-- The answer of `LockQueue::enqueue` tells whether the connection is queued. -/
theorem handoverQueue_enqueue {accepted : Bool} (hqueue : n.handoverQueue = out ++ items)
    (h : LockQueue.spec capacity items (.enqueue (fd, inc)) = (.enqueued accepted, items')) :
    (n.handover fd inc accepted).handoverQueue = out ++ items' := by
  rw [LockQueue.spec] at h
  split at h
  next =>
    cases h
    exact hqueue
  next =>
    cases h
    exact (congrArg (· ++ [(fd, inc)]) hqueue).trans (List.append_assoc ..)

theorem handoverQueue_dequeueAll (hqueue : n.handoverQueue = items)
    (h : LockQueue.spec capacity items .dequeueAll = (.items out, items')) :
    n.handoverQueue = out ++ items' := by
  cases h
  exact hqueue.trans (List.append_nil _).symm

theorem handoverQueue_process {item : Int × ℕ} {sslNew : Bool}
    (hqueue : n.handoverQueue = (item :: out) ++ items) (h : n.processHandover sslNew = some n') :
    n'.handoverQueue = out ++ items := by
  simp only [processHandover, hqueue, List.cons_append] at h
  split at h <;> cases h <;> rfl

end HandoverQueue

/-! ## Custody -/

inductive Holder where
  | tcp
  | handover
  | tls
  deriving DecidableEq

/-- The holder has the incarnation under this number. -/
def Holds (n : Net) : Holder → Int → ℕ → Prop
  | .tcp, fd, inc => n.tcpConns.find fd = some inc
  | .handover, fd, inc => (fd, inc) ∈ n.handoverQueue
  | .tls, fd, inc => n.tlsConns.find fd = some inc

/-- The incarnations whose descriptor has been closed. -/
def closed (n : Net) : List ℕ := n.closes.filterMap fun c => c.desc.bind Desc.inc?

structure Custody (n : Net) : Prop where
  kernel_of_holds : ∀ {h fd inc}, n.Holds h fd inc → n.kernel.find fd = some (.conn inc)
  holds_of_kernel : ∀ {fd inc}, n.kernel.find fd = some (.conn inc) → ∃ h, n.Holds h fd inc
  holder_unique : ∀ {h h' fd inc inc'}, n.Holds h fd inc → n.Holds h' fd inc' → h = h'
  queue_nodup : n.handoverQueue.Nodup
  fd_unique : ∀ {fd fd' inc}, n.kernel.find fd = some (.conn inc) →
    n.kernel.find fd' = some (.conn inc) → fd = fd'
  inc_lt : ∀ {fd inc}, n.kernel.find fd = some (.conn inc) → inc < n.accepted
  closed_iff : ∀ inc, inc ∈ n.closed ↔ inc < n.accepted ∧ ∀ fd, n.kernel.find fd ≠ some (.conn inc)
  closed_nodup : n.closed.Nodup
  legit : ∀ c ∈ n.closes, ∃ inc, c.owner = some inc ∧ c.desc = some (.conn inc)

theorem custody_init : init.Custody where
  kernel_of_holds {h} _ _ hold := by cases h <;> cases hold
  holds_of_kernel hk := by cases hk
  holder_unique {h h'} _ _ _ hold := by cases h <;> cases hold
  queue_nodup := List.nodup_nil
  fd_unique hk := by cases hk
  inc_lt hk := by cases hk
  closed_iff inc := by simp [closed, init]
  closed_nodup := List.nodup_nil
  legit c hc := by cases hc

namespace Custody

variable {n n' : Net} {fd : Int} {inc : ℕ}

/-- A descriptor that passes from one holder to another. -/
theorem move (c : n.Custody) {src : Holder} (dst : Holder) (hold : n.Holds src fd inc)
    (hkernel : n'.kernel = n.kernel) (haccepted : n'.accepted = n.accepted)
    (hcloses : n'.closes = n.closes) (hnodup : n'.handoverQueue.Nodup)
    (hholds : ∀ h fd' i, n'.Holds h fd' i ↔
      (fd' = fd ∧ h = dst ∧ i = inc) ∨ (fd' ≠ fd ∧ n.Holds h fd' i)) : n'.Custody := by
  have hclosed : n'.closed = n.closed := by simp only [closed, hcloses]
  exact
    { kernel_of_holds := by
        intro h fd' i hh
        rw [hkernel]
        rcases (hholds h fd' i).mp hh with ⟨rfl, -, rfl⟩ | ⟨-, hh⟩
        · exact c.kernel_of_holds hold
        · exact c.kernel_of_holds hh
      holds_of_kernel := by
        intro fd' i hk
        rw [hkernel] at hk
        obtain ⟨h, hh⟩ := c.holds_of_kernel hk
        by_cases hfd : fd' = fd
        · subst hfd
          have hsame := (c.kernel_of_holds hold).symm.trans hk
          cases hsame
          exact ⟨dst, (hholds _ _ _).mpr (.inl ⟨rfl, rfl, rfl⟩)⟩
        · exact ⟨h, (hholds _ _ _).mpr (.inr ⟨hfd, hh⟩)⟩
      holder_unique := by
        intro h h' fd' i i' hh hh'
        rcases (hholds _ _ _).mp hh with ⟨rfl, rfl, -⟩ | ⟨hne, hh⟩ <;>
          rcases (hholds _ _ _).mp hh' with ⟨hfd, rfl, -⟩ | ⟨hne', hh'⟩
        · rfl
        · exact absurd rfl hne'
        · exact absurd hfd hne
        · exact c.holder_unique hh hh'
      queue_nodup := hnodup
      fd_unique := by
        rw [hkernel]
        exact c.fd_unique
      inc_lt := by
        rw [hkernel, haccepted]
        exact c.inc_lt
      closed_iff := by
        rw [hclosed, hkernel, haccepted]
        exact c.closed_iff
      closed_nodup := hclosed ▸ c.closed_nodup
      legit := hcloses ▸ c.legit }

/-- A descriptor that its holder closes. -/
theorem release (c : n.Custody) {src : Holder} (hold : n.Holds src fd inc)
    (hkernel : n'.kernel = n.kernel.erase fd) (haccepted : n'.accepted = n.accepted)
    (hcloses : n'.closes = n.closes ++ [⟨fd, n.kernel.find fd, some inc⟩])
    (hnodup : n'.handoverQueue.Nodup)
    (hholds : ∀ h fd' i, n'.Holds h fd' i ↔ fd' ≠ fd ∧ n.Holds h fd' i) : n'.Custody := by
  have hopen := c.kernel_of_holds hold
  rw [hopen] at hcloses
  have hclosed : n'.closed = n.closed ++ [inc] := by
    simp [closed, hcloses, List.filterMap_append, Desc.inc?]
  have hkeep : ∀ {fd' i}, n'.kernel.find fd' = some (.conn i) ↔
      fd' ≠ fd ∧ n.kernel.find fd' = some (.conn i) := by
    intro fd' i
    rw [hkernel, Map.find_erase]
    by_cases hfd : fd' = fd <;> simp [hfd]
  exact
    { kernel_of_holds := by
        intro h fd' i hh
        obtain ⟨hne, hh⟩ := (hholds _ _ _).mp hh
        exact hkeep.mpr ⟨hne, c.kernel_of_holds hh⟩
      holds_of_kernel := by
        intro fd' i hk
        obtain ⟨hne, hk⟩ := hkeep.mp hk
        obtain ⟨h, hh⟩ := c.holds_of_kernel hk
        exact ⟨h, (hholds _ _ _).mpr ⟨hne, hh⟩⟩
      holder_unique := fun hh hh' =>
        c.holder_unique ((hholds _ _ _).mp hh).2 ((hholds _ _ _).mp hh').2
      queue_nodup := hnodup
      fd_unique := fun hk hk' => c.fd_unique (hkeep.mp hk).2 (hkeep.mp hk').2
      inc_lt := fun hk => haccepted ▸ c.inc_lt (hkeep.mp hk).2
      closed_iff := by
        intro i
        rw [hclosed, haccepted, List.mem_append, List.mem_singleton, c.closed_iff i]
        constructor
        · rintro (⟨hlt, hnone⟩ | rfl)
          · exact ⟨hlt, fun fd' hk => hnone fd' (hkeep.mp hk).2⟩
          · refine ⟨c.inc_lt hopen, fun fd' hk => ?_⟩
            obtain ⟨hne, hk⟩ := hkeep.mp hk
            exact hne (c.fd_unique hk hopen)
        · rintro ⟨hlt, hnone⟩
          by_cases hi : i = inc
          · exact .inr hi
          · refine .inl ⟨hlt, fun fd' hk => ?_⟩
            by_cases hfd : fd' = fd
            · subst hfd
              rw [hopen] at hk
              cases hk
              exact hi rfl
            · exact hnone fd' (hkeep.mpr ⟨hfd, hk⟩)
      closed_nodup := by
        rw [hclosed]
        refine List.nodup_append.mpr ⟨c.closed_nodup, by simp, ?_⟩
        rintro i hi _ hsingle rfl
        rw [List.mem_singleton.mp hsingle] at hi
        exact ((c.closed_iff inc).mp hi).2 fd hopen
      legit := by
        rw [hcloses]
        intro r hr
        rcases List.mem_append.mp hr with hr | hr
        · exact c.legit r hr
        · rw [List.mem_singleton.mp hr]
          exact ⟨inc, rfl, rfl⟩ }

/-- A change to the numbers that are not connections. -/
theorem setOther (c : n.Custody) {kernel : Map Int Desc}
    (hsame : ∀ fd inc, kernel.find fd = some (.conn inc) ↔ n.kernel.find fd = some (.conn inc)) :
    { n with kernel := kernel }.Custody where
  kernel_of_holds hh := (hsame _ _).mpr (c.kernel_of_holds hh)
  holds_of_kernel hk := c.holds_of_kernel ((hsame _ _).mp hk)
  holder_unique hh hh' := c.holder_unique hh hh'
  queue_nodup := c.queue_nodup
  fd_unique hk hk' := c.fd_unique ((hsame _ _).mp hk) ((hsame _ _).mp hk')
  inc_lt hk := c.inc_lt ((hsame _ _).mp hk)
  closed_iff inc := by
    simp only [ne_eq, hsame]
    exact c.closed_iff inc
  closed_nodup := c.closed_nodup
  legit := c.legit

/-- A number that the kernel has not open is held by nobody. -/
theorem not_holds (c : n.Custody) (hfree : n.kernel.find fd = none) (h : Holder) :
    ¬ n.Holds h fd inc := by
  intro hh
  rw [c.kernel_of_holds hh] at hfree
  cases hfree

/-- A new connection, under a number that was not open. -/
theorem add (c : n.Custody) (dst : Holder) (hfree : n.kernel.find fd = none)
    (hkernel : n'.kernel = n.kernel.insert fd (.conn n.accepted))
    (haccepted : n'.accepted = n.accepted + 1) (hcloses : n'.closes = n.closes)
    (hnodup : n'.handoverQueue.Nodup)
    (hholds : ∀ h fd' i, n'.Holds h fd' i ↔
      (fd' = fd ∧ h = dst ∧ i = n.accepted) ∨ n.Holds h fd' i) : n'.Custody := by
  have hclosed : n'.closed = n.closed := by simp only [closed, hcloses]
  have hkeep : ∀ {fd' i}, n'.kernel.find fd' = some (.conn i) ↔
      (fd' = fd ∧ i = n.accepted) ∨ n.kernel.find fd' = some (.conn i) := by
    intro fd' i
    rw [hkernel]
    by_cases hfd : fd' = fd
    · subst hfd
      simp [hfree, eq_comm]
    · simp [hfd]
  exact
    { kernel_of_holds := by
        intro h fd' i hh
        rcases (hholds h fd' i).mp hh with ⟨hfd, -, hi⟩ | hh
        · exact hkeep.mpr (.inl ⟨hfd, hi⟩)
        · exact hkeep.mpr (.inr (c.kernel_of_holds hh))
      holds_of_kernel := by
        intro fd' i hk
        rcases hkeep.mp hk with ⟨hfd, hi⟩ | hk
        · exact ⟨dst, (hholds _ _ _).mpr (.inl ⟨hfd, rfl, hi⟩)⟩
        · obtain ⟨h, hh⟩ := c.holds_of_kernel hk
          exact ⟨h, (hholds _ _ _).mpr (.inr hh)⟩
      holder_unique := by
        intro h h' fd' i i' hh hh'
        rcases (hholds _ _ _).mp hh with ⟨rfl, rfl, -⟩ | hh <;>
          rcases (hholds _ _ _).mp hh' with ⟨hfd, rfl, -⟩ | hh'
        · rfl
        · exact absurd hh' (c.not_holds hfree h')
        · exact absurd (hfd ▸ hh) (c.not_holds hfree h)
        · exact c.holder_unique hh hh'
      queue_nodup := hnodup
      fd_unique := by
        intro fd₁ fd₂ i h₁ h₂
        rcases hkeep.mp h₁ with ⟨rfl, rfl⟩ | h₁ <;> rcases hkeep.mp h₂ with ⟨hfd, hi⟩ | h₂
        · exact hfd.symm
        · exact absurd (c.inc_lt h₂) (Nat.lt_irrefl _)
        · exact absurd (c.inc_lt h₁) (hi ▸ Nat.lt_irrefl _)
        · exact c.fd_unique h₁ h₂
      inc_lt := by
        intro fd' i hk
        rw [haccepted]
        rcases hkeep.mp hk with ⟨-, rfl⟩ | hk
        · exact Nat.lt_succ_self _
        · exact Nat.lt_succ_of_lt (c.inc_lt hk)
      closed_iff := by
        intro i
        rw [hclosed, haccepted]
        refine (c.closed_iff i).trans ⟨?_, ?_⟩
        · rintro ⟨hlt, hnone⟩
          refine ⟨Nat.lt_succ_of_lt hlt, fun fd' hk => ?_⟩
          rcases hkeep.mp hk with ⟨-, rfl⟩ | hk
          · exact Nat.lt_irrefl _ hlt
          · exact hnone fd' hk
        · rintro ⟨hlt, hnone⟩
          refine ⟨Nat.lt_of_le_of_ne (Nat.le_of_lt_succ hlt) ?_, fun fd' hk => ?_⟩
          · rintro rfl
            exact hnone fd (hkeep.mpr (.inl ⟨rfl, rfl⟩))
          · exact hnone fd' (hkeep.mpr (.inr hk))
      closed_nodup := hclosed ▸ c.closed_nodup
      legit := hcloses ▸ c.legit }

theorem acceptConnection (c : n.Custody) (haccept : n.acceptConnection fd = some n') :
    n'.Custody := by
  unfold Net.acceptConnection at haccept
  split at haccept
  next => cases haccept
  next hfree =>
    cases haccept
    have hfree : n.kernel.find fd = none :=
      Map.contains_eq_false.mp (Bool.eq_false_iff.mpr fun hopen => hfree (.inr hopen))
    have htcp : n.tcpConns.find fd = none :=
      Option.eq_none_iff_forall_ne_some.mpr fun i hi => c.not_holds hfree .tcp hi
    rw [Map.emplace_of_find_none htcp]
    refine c.add .tcp hfree rfl rfl rfl c.queue_nodup fun h fd' i => ?_
    cases h with
    | tcp =>
      simp only [Holds]
      by_cases hfd : fd' = fd
      · subst hfd
        simp [htcp, eq_comm]
      · simp [hfd]
    | handover => simp [Holds]
    | tls => simp [Holds]

/-- The other tables do not have a number that one holder has. -/
theorem ne_of_holds (c : n.Custody) {h h' : Holder} {fd' : Int} {i : ℕ} (hold : n.Holds h fd inc)
    (hh : n.Holds h' fd' i) (hne : h ≠ h') : fd' ≠ fd := by
  rintro rfl
  exact hne (c.holder_unique hold hh)

/-- A table that another holder's step leaves alone. -/
theorem holds_iff (c : n.Custody) {h : Holder} (hold : n.Holds h fd inc) (h' : Holder) (fd' : Int)
    (i : ℕ) (hne : h ≠ h') : n.Holds h' fd' i ↔ fd' ≠ fd ∧ n.Holds h' fd' i :=
  ⟨fun hh => ⟨c.ne_of_holds hold hh hne, hh⟩, And.right⟩

theorem tcpCloseConnection (c : n.Custody) (hold : n.tcpConns.find fd = some inc) :
    (n.tcpCloseConnection fd).Custody := by
  have hold' : n.Holds .tcp fd inc := hold
  refine c.release hold' rfl rfl ?_ c.queue_nodup ?_
  · simp only [Net.tcpCloseConnection, close, hold]
  · intro h fd' i
    cases h with
    | tcp => exact Map.find_erase_eq_some
    | handover => exact c.holds_iff hold' .handover fd' i (by simp)
    | tls => exact c.holds_iff hold' .tls fd' i (by simp)

theorem tlsCloseConnection (c : n.Custody) (hold : n.tlsConns.find fd = some inc) :
    (n.tlsCloseConnection fd).Custody := by
  have hold' : n.Holds .tls fd inc := hold
  refine c.release hold' rfl rfl ?_ c.queue_nodup ?_
  · simp only [Net.tlsCloseConnection, close, hold]
  · intro h fd' i
    cases h with
    | tcp => exact c.holds_iff hold' .tcp fd' i (by simp)
    | handover => exact c.holds_iff hold' .handover fd' i (by simp)
    | tls => exact Map.find_erase_eq_some

theorem handoverToTls (c : n.Custody) (hold : n.tcpConns.find fd = some inc) (enqueued : Bool) :
    (n.handoverToTls fd enqueued).Custody := by
  have hold' : n.Holds .tcp fd inc := hold
  cases enqueued with
  | false =>
    have hsame : n.handoverToTls fd false = n.tcpCloseConnection fd := by
      simp only [Net.handoverToTls, hold, handover, Net.tcpCloseConnection, close]
      rfl
    rw [hsame]
    exact c.tcpCloseConnection hold
  | true =>
    simp only [Net.handoverToTls, hold, handover, if_true]
    refine c.move .handover hold' rfl rfl rfl ?_ ?_
    · refine List.nodup_append.mpr ⟨c.queue_nodup, by simp, ?_⟩
      rintro item hitem _ hsingle rfl
      rw [List.mem_singleton.mp hsingle] at hitem
      exact c.ne_of_holds hold' (show n.Holds .handover fd inc from hitem) (by simp) rfl
    · intro h fd' i
      cases h with
      | tcp =>
        simp only [Holds, reduceCtorEq, false_and, and_false, false_or]
        exact Map.find_erase_eq_some
      | handover =>
        simp only [Holds, List.mem_append, List.mem_singleton, Prod.mk.injEq, true_and]
        constructor
        · rintro (hh | hh)
          · exact .inr ⟨c.ne_of_holds hold' (show n.Holds .handover fd' i from hh) (by simp), hh⟩
          · exact .inl hh
        · rintro (hh | hh)
          · exact .inr hh
          · exact .inl hh.2
      | tls =>
        simp only [Holds, reduceCtorEq, false_and, and_false, false_or]
        exact c.holds_iff hold' .tls fd' i (by simp)

/-- A number is in the handover queue once. -/
theorem mem_tail_iff (c : n.Custody) {items : List (Int × ℕ)}
    (hq : n.handoverQueue = (fd, inc) :: items) (fd' : Int) (i : ℕ) :
    (fd', i) ∈ items ↔ fd' ≠ fd ∧ n.Holds .handover fd' i := by
  have hhead : n.Holds .handover fd inc := by simp [Holds, hq]
  constructor
  · intro hmem
    have hold : n.Holds .handover fd' i := by simp [Holds, hq, hmem]
    refine ⟨?_, hold⟩
    rintro rfl
    have hsame := (c.kernel_of_holds hold).symm.trans (c.kernel_of_holds hhead)
    cases hsame
    exact (List.nodup_cons.mp (hq ▸ c.queue_nodup)).1 hmem
  · rintro ⟨hne, hold⟩
    simp only [Holds, hq, List.mem_cons, Prod.mk.injEq] at hold
    rcases hold with ⟨hbad, -⟩ | hmem
    · exact absurd hbad hne
    · exact hmem

theorem processHandover (c : n.Custody) {sslNew : Bool}
    (hstep : n.processHandover sslNew = some n') : n'.Custody := by
  unfold Net.processHandover at hstep
  cases hq : n.handoverQueue with
  | nil => simp [hq] at hstep
  | cons item items =>
    obtain ⟨fd, inc⟩ := item
    have hold : n.Holds .handover fd inc := by simp [Holds, hq]
    have hnodup : items.Nodup := (List.nodup_cons.mp (hq ▸ c.queue_nodup)).2
    simp only [hq] at hstep
    cases sslNew with
    | true =>
      cases hstep
      have htls : n.tlsConns.find fd = none :=
        Option.eq_none_iff_forall_ne_some.mpr fun i hi =>
          c.ne_of_holds hold (show n.Holds .tls fd i from hi) (by simp) rfl
      rw [Map.emplace_of_find_none htls]
      refine c.move .tls hold rfl rfl rfl hnodup ?_
      intro h fd' i
      cases h with
      | tcp =>
        simp only [Holds, reduceCtorEq, false_and, and_false, false_or]
        exact c.holds_iff hold .tcp fd' i (by simp)
      | handover =>
        simp only [reduceCtorEq, false_and, and_false, false_or]
        exact c.mem_tail_iff hq fd' i
      | tls =>
        simp only [Holds, true_and]
        by_cases hfd : fd' = fd
        · subst hfd
          simp [eq_comm]
        · simp [hfd]
    | false =>
      cases hstep
      refine c.release hold rfl rfl rfl hnodup ?_
      intro h fd' i
      cases h with
      | tcp => exact c.holds_iff hold .tcp fd' i (by simp)
      | handover => exact c.mem_tail_iff hq fd' i
      | tls => exact c.holds_iff hold .tls fd' i (by simp)

end Custody

end Net

end NfEngine
