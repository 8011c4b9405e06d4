-- SUMMARY: LockQueue: the accesses of its operations under the lock, and the bounded first-in first-out queue that its threads see.
import NfEngine.Lib.Lock

/-!
# The lock queue

`LockQueue` is a deque behind a mutex; the TCP reactor hands connections over to the TLS
reactor through one. `access` is one access of the code inside a critical section. The
loop of `dequeueAll` moves the items out one by one, and the lock keeps other threads away
from the deque meanwhile, so that all the threads together see the atomic queue `spec`: an
item that was accepted comes out once, and in the order of acceptance.
-/

namespace NfEngine

open Lib.Lock Lib.Transition

namespace LockQueue

variable {ι τ : Type} {capacity : ℕ}

inductive Op (τ : Type) where
  | enqueue (item : τ)
  | dequeueAll
  | empty
  | size
  deriving DecidableEq

inductive Answer (τ : Type) where
  | enqueued (accepted : Bool)
  | items (out : List τ)
  | empty (b : Bool)
  | size (n : ℕ)
  deriving DecidableEq

/-- Where an operation is inside its critical section. -/
inductive Pc (τ : Type) where
  /-- The test of `enqueue` against the capacity. -/
  | testFull (item : τ)
  | emplaceBack (item : τ)
  /-- The test of `dequeueAll` before its loop. -/
  | testEmpty
  /-- The head of the loop. -/
  | loop (out : List τ)
  /-- The front item has been moved to the end of `out`. -/
  | popFront (out : List τ)
  | empty
  | size

/-- One access to the deque. -/
def access (capacity : ℕ) (q : List τ) : Pc τ → List τ × (Pc τ ⊕ Answer τ)
  | .testFull item =>
    if capacity ≠ 0 ∧ capacity ≤ q.length then (q, .inr (.enqueued false)) else (q, .inl (.emplaceBack item))
  | .emplaceBack item => (q ++ [item], .inr (.enqueued true))
  | .testEmpty => if q.isEmpty then (q, .inr (.items [])) else (q, .inl (.loop []))
  | .loop out =>
    match q with
    | [] => ([], .inr (.items out))
    | item :: rest => (item :: rest, .inl (.popFront (out ++ [item])))
  | .popFront out => (q.tail, .inl (.loop out))
  | .empty => (q, .inr (.empty q.isEmpty))
  | .size => (q, .inr (.size q.length))

def enter : Op τ → Pc τ
  | .enqueue item => .testFull item
  | .dequeueAll => .testEmpty
  | .empty => .empty
  | .size => .size

/-- `LockQueue` with a capacity; `0` means no bound. -/
def code (capacity : ℕ) : Code (List τ) (Op τ) (Pc τ) (Answer τ) where
  early _ := none
  enter := enter
  access := access capacity

/-- The atomic queue. -/
def spec (capacity : ℕ) (q : List τ) : Op τ → Answer τ × List τ
  | .enqueue item =>
    if capacity ≠ 0 ∧ capacity ≤ q.length then (.enqueued false, q) else (.enqueued true, q ++ [item])
  | .dequeueAll => (.items q, [])
  | .empty => (.empty q.isEmpty, q)
  | .size => (.size q.length, q)

end LockQueue

/-- The queue of an object, seen from a thread between its operations. -/
structure LockQueue (τ : Type) where
  capacity : ℕ
  items : List τ

namespace LockQueue

variable {ι τ : Type} {capacity : ℕ}

/-- `enqueue`, if it accepts the item. -/
def enqueue (q : LockQueue τ) (item : τ) : Option (LockQueue τ) :=
  match spec q.capacity q.items (.enqueue item) with
  | (.enqueued true, items) => some ⟨q.capacity, items⟩
  | _ => none

/-- What `dequeueAll` leaves. -/
def cleared (q : LockQueue τ) : LockQueue τ := ⟨q.capacity, (spec q.capacity q.items .dequeueAll).2⟩

/-! ## The operations without interruption -/

/-- What the rest of a critical section leads to, from each place in it. -/
def rest (capacity : ℕ) (q : List τ) : Pc τ → Answer τ × List τ
  | .testFull item => spec capacity q (.enqueue item)
  | .emplaceBack item => (.enqueued true, q ++ [item])
  | .testEmpty => (.items q, [])
  | .loop out => (.items (out ++ q), [])
  | .popFront out => (.items (out ++ q.tail), [])
  | .empty => (.empty q.isEmpty, q)
  | .size => (.size q.length, q)

theorem implements_spec (capacity : ℕ) :
    Implements (code capacity : Code (List τ) (Op τ) (Pc τ) (Answer τ)) (spec capacity) := by
  refine .of_rest (rest capacity) (fun h => by cases h) (fun {op} _ q => ?_) fun q pc => ?_
  · cases op <;> rfl
  · cases pc with
    | testFull item =>
      simp only [code, access, rest, spec]
      split <;> rfl
    | testEmpty => cases q <;> rfl
    | loop out =>
      cases q with
      | nil => simp [code, access, rest, after]
      | cons item items => simp [code, access, rest, after]
    | emplaceBack | popFront | empty | size => rfl

/-! ## What goes in comes out -/

/-- The items that were accepted, in order. -/
def accepted : List (Op τ × Answer τ) → List τ
  | [] => []
  | (.enqueue item, .enqueued true) :: log => item :: accepted log
  | _ :: log => accepted log

/-- The items that were taken out, in order. -/
def delivered : List (Op τ × Answer τ) → List τ
  | [] => []
  | (_, .items out) :: log => out ++ delivered log
  | _ :: log => delivered log

/-- The atomic operations keep the items in order and the queue within its capacity. -/
theorem spec_exec {q q' : List τ} {log : List (Op τ × Answer τ)}
    (h : Lib.Refinement.exec (fun q op => some (spec capacity q op)) q (log.map Prod.fst) =
      some (log.map Prod.snd, q')) :
    q ++ accepted log = delivered log ++ q' ∧
      (capacity ≠ 0 → q.length ≤ capacity → q'.length ≤ capacity) := by
  induction log generalizing q with
  | nil =>
    cases h
    simp [accepted, delivered]
  | cons entry log ih =>
    obtain ⟨op, r⟩ := entry
    obtain ⟨b, t, bs, hstep, hrest, heq⟩ := Lib.Refinement.exec_cons_eq_some.mp h
    obtain ⟨rfl, rfl⟩ := List.cons_eq_cons.mp heq
    obtain ⟨hitems, hbound⟩ := ih hrest
    cases op with
    | enqueue item =>
      simp only [spec, Option.some.injEq] at hstep
      split at hstep
      next =>
        cases hstep
        exact ⟨hitems, hbound⟩
      next hroom =>
        cases hstep
        refine ⟨by simpa [accepted, delivered] using hitems, fun hcap hle => hbound hcap ?_⟩
        rw [List.length_append, List.length_singleton]
        exact Nat.lt_of_not_le fun hfull => hroom ⟨hcap, hfull⟩
    | dequeueAll =>
      cases hstep
      refine ⟨?_, fun hcap _ => hbound hcap (Nat.zero_le _)⟩
      rw [accepted, delivered, List.append_assoc, ← hitems, List.nil_append]
      simp
    | empty | size =>
      cases hstep
      exact ⟨hitems, hbound⟩

/-- However many threads use the queue, and in whatever order they take their steps, they see one
    bounded queue: the answers are those of atomic operations, each of which takes place between
    its call and its return; what was accepted is what was taken out, in the same order, and what
    is still there; and the capacity, if there is one, is never exceeded. -/
theorem threads_see_bounded_fifo [DecidableEq ι] {acts : List (Act ι (Op τ))}
    {s : System ι (List τ) (Op τ) (Pc τ) (Answer τ)}
    (hrun : run (step (code capacity)) (init []) acts = some s) :
    ∃ q, Lib.Refinement.exec (fun q op => some (spec capacity q op)) [] (s.log.map Prod.fst) =
        some (s.log.map Prod.snd, q) ∧ (s.holder = none → s.shared = q) ∧
      accepted s.log = delivered s.log ++ q ∧ (capacity ≠ 0 → q.length ≤ capacity) ∧
      (∀ c ∈ s.returned, c.Ok s.log) ∧ (s.returned.map Call.pos).Nodup := by
  obtain ⟨⟨q, hexec, hshared⟩, hcalls, hnodup⟩ := linearizable (implements_spec capacity) hrun
  obtain ⟨hitems, hbound⟩ := spec_exec hexec
  exact ⟨q, hexec, hshared, hitems, fun hcap => hbound hcap (Nat.zero_le _), hcalls, hnodup⟩

/-- The second thread waits for the lock in the middle of the first one's `dequeueAll`. -/
def contendedActs : List (Act Bool (Op ℕ)) :=
  [.call false (.enqueue 7), .lock false, .access false, .access false, .unlock false, .ret false,
    .call false .dequeueAll, .lock false, .access false, .access false, .call true (.enqueue 8),
    .access false, .access false, .unlock false, .lock true, .access true, .access true,
    .unlock true, .ret true, .ret false]

theorem bounded_fifo_contended :
    ∃ s, run (step (code 1)) (init []) contendedActs = some s ∧ s.shared = [8] ∧
      ∃ q, (s.holder = none → s.shared = q) ∧ accepted s.log = delivered s.log ++ q := by
  have hrun : run (step (code 1)) (init []) contendedActs = some _ := rfl
  obtain ⟨q, -, hshared, hitems, -⟩ := threads_see_bounded_fifo hrun
  exact ⟨_, hrun, rfl, q, hshared, hitems⟩

end LockQueue

end NfEngine
