-- SUMMARY: The IPC server as a system of its reactor and workers, and when every reply goes to the connection that asked.
import NfEngine.Ipc.IpcReactor
import NfEngine.Lib.Transition

/-!
# Who gets a reply

The reactor accepts and closes connections, cuts requests out of them and hands
each to a worker in turn; the workers answer and queue the replies, which the
reactor places by descriptor number. Every step is one queue operation or one
handler of the reactor, so the runs of `step` are all the interleavings.

A message carries the descriptor number only. The incarnation of the connection
that a request came from, and the two lists at the end of the state, are
observations that no step reads. When a connection is closed while its request is
with a worker, and the kernel hands the number out again, the reply is placed on
the new connection.
-/

namespace NfEngine

open Lib Lib.Transition

namespace IpcServer

/-- A request, with the connection it came from. -/
structure Request where
  msg : IpcMessage
  inc : ℕ

/-- The response to a request. -/
structure Reply where
  request : Request
  response : List UInt8

/-- The message that the worker hands to the reactor. -/
def Reply.msg (reply : Reply) : IpcMessage := .ofBody reply.request.msg.fd reply.response

end IpcServer

open IpcServer in
structure IpcServer (n : ℕ) where
  conns : Map Int (ℕ × IpcReactor.Conn)
  accepted : ℕ
  rr : ℕ
  rxQueue : Fin n → List Request
  inHand : Fin n → Option Request
  txQueue : List Reply
  received : List Request
  /-- The replies placed, each with the connection it was placed on. -/
  written : List (ℕ × Reply)

namespace IpcServer

variable {n : ℕ}

def init (n : ℕ) : IpcServer n :=
  { conns := .empty
    accepted := 0
    rr := 0
    rxQueue := fun _ => []
    inHand := fun _ => none
    txQueue := []
    received := []
    written := [] }

/-! ## Steps -/

/-- `acceptConnection`: the kernel returns a number that is not open. -/
def acceptConnection (s : IpcServer n) (fd : Int) : Option (IpcServer n) :=
  if 0 ≤ fd ∧ s.conns.contains fd = false then
    some { s with conns := s.conns.emplace fd (s.accepted, .new), accepted := s.accepted + 1 }
  else
    none

def closeConnection (s : IpcServer n) (fd : Int) : IpcServer n :=
  { s with conns := s.conns.erase fd }

/-- `m_rr.fetch_add(1) % m_ipcWorkers.size()`. -/
def nextWorker [NeZero n] (s : IpcServer n) : Fin n := Fin.ofNat n (s.rr % 2 ^ 64)

/-- The inner loop of `receive` for one complete frame; a full queue drops it. -/
def receive [NeZero n] (s : IpcServer n) (fd : Int) (frame : List UInt8) (enqueued : Bool) :
    Option (IpcServer n) :=
  match s.conns.find fd, IpcMessage.make fd frame with
  | some (inc, _), .ok msg =>
    let request : Request := ⟨msg, inc⟩
    let w := s.nextWorker
    some { s with
      rr := s.rr + 1
      received := s.received ++ [request]
      rxQueue :=
        if enqueued then Function.update s.rxQueue w (s.rxQueue w ++ [request]) else s.rxQueue }
  | _, _ => none

/-- A worker takes the next request. -/
def dequeue (s : IpcServer n) (w : Fin n) : Option (IpcServer n) :=
  match s.rxQueue w, s.inHand w with
  | request :: rest, none =>
    some { s with
      rxQueue := Function.update s.rxQueue w rest
      inHand := Function.update s.inHand w (some request) }
  | _, _ => none

/-- The handler has answered, and the worker hands the reply over; a full queue
    drops it. -/
def answer (s : IpcServer n) (w : Fin n) (response : List UInt8) (enqueued : Bool) :
    Option (IpcServer n) :=
  match s.inHand w with
  | some request =>
    some { s with
      inHand := Function.update s.inHand w none
      txQueue := if enqueued then s.txQueue ++ [⟨request, response⟩] else s.txQueue }
  | none => none

/-- `processTxQueue` for one reply. -/
def place (s : IpcServer n) : Option (IpcServer n) :=
  match s.txQueue with
  | [] => none
  | reply :: replies =>
    match s.conns.find reply.msg.fd with
    | none => some { s with txQueue := replies }
    | some (inc, conn) =>
      match conn.place reply.msg.payload with
      | none => some { s with txQueue := replies }
      | some conn' =>
        some { s with
          txQueue := replies
          conns := s.conns.insert reply.msg.fd (inc, conn')
          written := s.written ++ [(inc, reply)] }

/-- `flushTxBuffer`: the connection is closed when the ring is empty. -/
def flushTxBuffer (s : IpcServer n) (fd : Int) (results : List SendResult) : IpcServer n :=
  match s.conns.find fd with
  | none => s
  | some (inc, conn) =>
    if conn.txRing.readable = 0 then
      s
    else
      match (conn.flush results).2 with
      | none => s.closeConnection fd
      | some conn' => { s with conns := s.conns.insert fd (inc, conn') }

inductive Act (n : ℕ) where
  | accept (fd : Int)
  /-- A hangup, the end of the stream, an error, or a full receive ring. -/
  | close (fd : Int)
  | receive (fd : Int) (frame : List UInt8) (enqueued : Bool)
  | dequeue (w : Fin n)
  | answer (w : Fin n) (response : List UInt8) (enqueued : Bool)
  | place
  | flush (fd : Int) (results : List SendResult)

def step [NeZero n] (s : IpcServer n) : Act n → Option (IpcServer n)
  | .accept fd => s.acceptConnection fd
  | .close fd => some (s.closeConnection fd)
  | .receive fd frame enqueued => s.receive fd frame enqueued
  | .dequeue w => s.dequeue w
  | .answer w response enqueued => s.answer w response enqueued
  | .place => s.place
  | .flush fd results => some (s.flushTxBuffer fd results)

/-- The connections as the reactor has them. -/
def rings (s : IpcServer n) : Map Int IpcReactor.Conn := fun fd => (s.conns.find fd).map Prod.snd

theorem find_rings (s : IpcServer n) (fd : Int) : s.rings.find fd = (s.conns.find fd).map Prod.snd :=
  rfl

/-- Placing a reply is the loop body of `processTxQueue` on the connections. -/
theorem rings_place {s s' : IpcServer n} {reply : Reply} {replies : List Reply}
    (hq : s.txQueue = reply :: replies) (h : s.place = some s') :
    s'.rings = IpcReactor.placeReply s.rings reply.msg := by
  simp only [place, hq] at h
  unfold IpcReactor.placeReply
  rw [find_rings]
  cases hc : s.conns.find reply.msg.fd with
  | none =>
    simp only [hc] at h
    cases h
    rfl
  | some entry =>
    simp only [hc, Option.map_some] at h ⊢
    cases hp : entry.2.place reply.msg.payload with
    | none =>
      simp only [hp] at h
      cases h
      rfl
    | some conn =>
      simp only [hp] at h
      cases h
      ext1 fd
      simp only [find_rings, Map.find_insert]
      split <;> rfl

/-! ## What a step can do -/

/-- The request is with the server: it waits at a worker, a worker has it, or its
    reply waits at the reactor. -/
def InFlight (s : IpcServer n) (request : Request) : Prop :=
  (∃ w, request ∈ s.rxQueue w) ∨ (∃ w, request ∈ s.inHand w) ∨
    ∃ reply ∈ s.txQueue, reply.request = request

/-- Writing back a connection leaves it under its number. -/
theorem find_of_insert {conns : Map Int (ℕ × IpcReactor.Conn)} {fd fd' : Int} {inc inc' : ℕ}
    {conn conn' new : IpcReactor.Conn} (hfind : conns.find fd' = some (inc', conn'))
    (h : (conns.insert fd' (inc', new)).find fd = some (inc, conn)) :
    ∃ conn, conns.find fd = some (inc, conn) := by
  by_cases hfd : fd = fd'
  · subst hfd
    rw [Map.find_insert_same] at h
    cases h
    exact ⟨conn', hfind⟩
  · rw [Map.find_insert_ne _ _ hfd] at h
    exact ⟨conn, h⟩

/-- What a step does to connections, requests and replies: only accepting gives a
    number to another connection, a request comes from the connection under its
    number, and a reply is placed on the connection under its number. -/
structure Moves (s : IpcServer n) (a : Act n) (s' : IpcServer n) : Prop where
  conns {fd : Int} {inc : ℕ} {conn : IpcReactor.Conn} :
    s'.conns.find fd = some (inc, conn) →
      (∃ conn', s.conns.find fd = some (inc, conn')) ∨ a = .accept fd
  inFlight {request : Request} :
    s'.InFlight request → s.InFlight request ∨
      (request ∈ s'.received ∧ ∃ conn, s.conns.find request.msg.fd = some (request.inc, conn))
  received : s.received ⊆ s'.received
  written {inc : ℕ} {reply : Reply} :
    (inc, reply) ∈ s'.written → (inc, reply) ∈ s.written ∨
      (s.InFlight reply.request ∧ ∃ conn, s.conns.find reply.request.msg.fd = some (inc, conn))

section Effects

variable {s s' : IpcServer n} {a : Act n}

/-- A step that changes connections only. -/
theorem moves_setConns {conns : Map Int (ℕ × IpcReactor.Conn)} {accepted : ℕ}
    (h : ∀ fd inc conn, conns.find fd = some (inc, conn) →
      (∃ conn', s.conns.find fd = some (inc, conn')) ∨ a = .accept fd) :
    Moves s a { s with conns := conns, accepted := accepted } where
  conns := h _ _ _
  inFlight := .inl
  received := List.Subset.refl _
  written := .inl

/-- A step that only passes requests on or drops them. -/
theorem moves_inside (hconns : s'.conns = s.conns) (hreceived : s'.received = s.received)
    (hwritten : s'.written = s.written)
    (hflight : ∀ {request}, s'.InFlight request → s.InFlight request) : Moves s a s' where
  conns hfind := .inl ⟨_, hconns ▸ hfind⟩
  inFlight h := .inl (hflight h)
  received := hreceived ▸ List.Subset.refl _
  written h := .inl (hwritten ▸ h)

theorem moves_receive [NeZero n] {fd : Int} {frame : List UInt8} {enqueued : Bool}
    (h : s.receive fd frame enqueued = some s') : Moves s a s' := by
  unfold receive at h
  split at h
  next inc conn msg hc hmake =>
    cases h
    obtain ⟨hfd, _⟩ := IpcMessage.make_eq_ok.mp hmake
    refine ⟨fun hfind => .inl ⟨_, hfind⟩, ?_, List.subset_append_left _ _, .inl⟩
    rintro request (⟨w, hmem⟩ | hrest)
    · have hcase : request ∈ s.rxQueue w ∨ request = ⟨msg, inc⟩ := by
        dsimp only at hmem
        split at hmem
        next =>
          by_cases hw : w = s.nextWorker
          · subst hw
            simpa using hmem
          · rw [Function.update_of_ne hw] at hmem
            exact .inl hmem
        next => exact .inl hmem
      rcases hcase with hold | rfl
      · exact .inl (.inl ⟨w, hold⟩)
      · exact .inr ⟨List.mem_append_right _ List.mem_cons_self, conn, hfd ▸ hc⟩
    · exact .inl (.inr hrest)
  next => cases h

theorem moves_dequeue {w : Fin n} (h : s.dequeue w = some s') : Moves s a s' := by
  unfold dequeue at h
  split at h
  next request rest hq _ =>
    cases h
    refine moves_inside rfl rfl rfl ?_
    rintro r (⟨w', hmem⟩ | ⟨w', hmem⟩ | hrest)
    · by_cases hw : w' = w
      · subst hw
        simp only [Function.update_self] at hmem
        exact .inl ⟨w', hq ▸ List.mem_cons_of_mem _ hmem⟩
      · simp only [Function.update_of_ne hw] at hmem
        exact .inl ⟨w', hmem⟩
    · by_cases hw : w' = w
      · subst hw
        simp only [Function.update_self, Option.mem_some_iff] at hmem
        exact .inl ⟨w', hq ▸ hmem ▸ List.mem_cons_self⟩
      · simp only [Function.update_of_ne hw] at hmem
        exact .inr (.inl ⟨w', hmem⟩)
    · exact .inr (.inr hrest)
  next => cases h

theorem moves_answer {w : Fin n} {response : List UInt8} {enqueued : Bool}
    (h : s.answer w response enqueued = some s') : Moves s a s' := by
  unfold answer at h
  split at h
  next request hhand =>
    cases h
    refine moves_inside rfl rfl rfl ?_
    rintro r (hwait | ⟨w', hmem⟩ | ⟨reply, hmem, rfl⟩)
    · exact .inl hwait
    · by_cases hw : w' = w
      · subst hw
        simp [Function.update_self] at hmem
      · simp only [Function.update_of_ne hw] at hmem
        exact .inr (.inl ⟨w', hmem⟩)
    · have hcase : reply ∈ s.txQueue ∨ reply = ⟨request, response⟩ := by
        dsimp only at hmem
        split at hmem
        next => simpa using hmem
        next => exact .inl hmem
      rcases hcase with hold | rfl
      · exact .inr (.inr ⟨reply, hold, rfl⟩)
      · exact .inr (.inl ⟨w, hhand⟩)
  next => cases h

theorem moves_place (h : s.place = some s') : Moves s a s' := by
  unfold place at h
  split at h
  next => cases h
  next reply replies hq =>
    have hflight : ∀ {request}, { s with txQueue := replies }.InFlight request →
        s.InFlight request := by
      rintro request (hwait | hhand | ⟨reply', hmem, rfl⟩)
      · exact .inl hwait
      · exact .inr (.inl hhand)
      · exact .inr (.inr ⟨reply', hq ▸ List.mem_cons_of_mem _ hmem, rfl⟩)
    split at h
    next =>
      cases h
      exact moves_inside rfl rfl rfl hflight
    next inc conn hc =>
      split at h
      next =>
        cases h
        exact moves_inside rfl rfl rfl hflight
      next =>
        cases h
        refine ⟨fun hfind => .inl (find_of_insert hc hfind), fun hr => .inl (hflight hr),
          List.Subset.refl _, fun hmem => ?_⟩
        rcases List.mem_append.mp hmem with hold | hnew
        · exact .inl hold
        · cases List.mem_singleton.mp hnew
          exact .inr ⟨.inr (.inr ⟨reply, hq ▸ List.mem_cons_self, rfl⟩), conn, hc⟩

theorem moves_flushTxBuffer (s : IpcServer n) (fd : Int) (results : List SendResult) :
    Moves s a (s.flushTxBuffer fd results) := by
  have hsame : Moves s a s := moves_inside rfl rfl rfl id
  unfold flushTxBuffer
  split
  next => exact hsame
  next inc conn hc =>
    split
    next => exact hsame
    next =>
      split
      next =>
        refine moves_setConns fun _ _ conn' hfind => .inl ⟨conn', ?_⟩
        exact (Map.find_erase_eq_some.mp hfind).2
      next => exact moves_setConns fun _ _ _ hfind => .inl (find_of_insert hc hfind)

theorem moves_of_step [NeZero n] (h : s.step a = some s') : Moves s a s' := by
  cases a with
  | accept fd =>
    simp only [step, acceptConnection] at h
    split at h
    next =>
      cases h
      refine moves_setConns fun fd' inc conn hfind => ?_
      rcases Map.find_emplace_eq_some hfind with hold | ⟨rfl, _⟩
      · exact .inl ⟨conn, hold⟩
      · exact .inr rfl
    next => cases h
  | close fd =>
    cases h
    exact moves_setConns fun _ _ conn hfind => .inl ⟨conn, (Map.find_erase_eq_some.mp hfind).2⟩
  | receive fd frame enqueued => exact moves_receive h
  | dequeue w => exact moves_dequeue h
  | answer w response enqueued => exact moves_answer h
  | place => exact moves_place h
  | flush fd results =>
    cases h
    exact moves_flushTxBuffer s fd results

end Effects

/-! ## Ownership -/

/-- Every reply placed so far answers a request that was received on the connection
    it was placed on. -/
def RepliesOwned (s : IpcServer n) : Prop :=
  ∀ inc reply, (inc, reply) ∈ s.written → reply.request ∈ s.received ∧ reply.request.inc = inc

/-- A request or a reply with this descriptor number is with the server. -/
def awaits (s : IpcServer n) (fd : Int) : Bool :=
  decide (∃ w, ∃ request ∈ s.rxQueue w, request.msg.fd = fd) ||
    decide (∃ w, ∃ request ∈ s.inHand w, request.msg.fd = fd) ||
    s.txQueue.any fun reply => reply.request.msg.fd = fd

theorem awaits_of_inFlight {s : IpcServer n} {request : Request} (h : s.InFlight request) :
    s.awaits request.msg.fd = true := by
  simp only [awaits, Bool.or_eq_true, decide_eq_true_eq, List.any_eq_true]
  rcases h with ⟨w, hmem⟩ | ⟨w, hmem⟩ | ⟨reply, hmem, rfl⟩
  · exact .inl (.inl ⟨w, request, hmem, rfl⟩)
  · exact .inl (.inr ⟨w, request, hmem, rfl⟩)
  · exact .inr ⟨reply, hmem, rfl⟩

/-- The kernel returns a number only when nothing of an earlier connection under it
    is left in the server. -/
def FreshAccept (s : IpcServer n) : Act n → Prop
  | .accept fd => s.awaits fd = false
  | _ => True

instance (s : IpcServer n) : DecidablePred s.FreshAccept
  | .accept fd => inferInstanceAs (Decidable (s.awaits fd = false))
  | .close _ | .receive _ _ _ | .dequeue _ | .answer _ _ _ | .place | .flush _ _ => isTrue trivial

structure OwnInv (s : IpcServer n) : Prop where
  current : ∀ request inc conn, s.InFlight request →
    s.conns.find request.msg.fd = some (inc, conn) → request.inc = inc
  known : ∀ request, s.InFlight request → request ∈ s.received
  owned : s.RepliesOwned

theorem ownInv_init : (init n).OwnInv where
  current := by
    intro request inc conn _ hfind
    cases hfind
  known := by
    rintro request (⟨w, hmem⟩ | ⟨w, hmem⟩ | ⟨reply, hmem, _⟩) <;> cases hmem
  owned := by
    intro inc reply hmem
    cases hmem

theorem OwnInv.step [NeZero n] {s s' : IpcServer n} {a : Act n} (h : s.OwnInv)
    (hok : s.FreshAccept a) (hstep : s.step a = some s') : s'.OwnInv := by
  have hmoves := moves_of_step hstep
  refine ⟨?_, ?_, ?_⟩
  · intro request inc conn hflight hfind
    rcases hmoves.conns hfind with ⟨conn', hfind'⟩ | rfl
    · rcases hmoves.inFlight hflight with hold | ⟨_, conn'', hnew⟩
      · exact h.current request inc conn' hold hfind'
      · rw [hfind'] at hnew
        cases hnew
        rfl
    · -- nothing in flight has the number of a new connection
      exfalso
      rcases hmoves.inFlight hflight with hold | ⟨_, conn'', hnew⟩
      · have := awaits_of_inFlight hold
        rw [show s.awaits request.msg.fd = false from hok] at this
        cases this
      · simp only [IpcServer.step, acceptConnection, Map.contains, hnew] at hstep
        simp at hstep
  · intro request hflight
    rcases hmoves.inFlight hflight with hold | ⟨hnew, _⟩
    · exact hmoves.received (h.known request hold)
    · exact hnew
  · intro inc reply hmem
    rcases hmoves.written hmem with hold | ⟨hflight, conn, hfind⟩
    · obtain ⟨hreceived, hinc⟩ := h.owned inc reply hold
      exact ⟨hmoves.received hreceived, hinc⟩
    · exact ⟨hmoves.received (h.known _ hflight), h.current _ _ _ hflight hfind⟩

/-- Every reply goes to the connection that asked, in every run in which the kernel
    returns no number that a request or a reply of an earlier connection still has. -/
theorem repliesOwned_of_freshAccept [NeZero n] {s : IpcServer n} {acts : List (Act n)}
    (hok : Along step FreshAccept (init n) acts) (hrun : run step (init n) acts = some s) :
    s.RepliesOwned :=
  (run_induct (fun _ _ _ => OwnInv.step) ownInv_init hok hrun).owned

/-! ## Two runs -/

/-- A reply that fits the ring is placed. -/
theorem place_of_room {s : IpcServer n} {reply : Reply} {replies : List Reply} {inc : ℕ}
    {conn : IpcReactor.Conn} (hq : s.txQueue = reply :: replies)
    (hfind : s.conns.find reply.msg.fd = some (inc, conn))
    (hroom : reply.msg.payload.length ≤ conn.txRing.writable) :
    ∃ s', s.place = some s' ∧ (inc, reply) ∈ s'.written := by
  simp only [place, hq, hfind, IpcReactor.Conn.place, if_neg (Nat.not_lt.mpr hroom)]
  exact ⟨_, rfl, List.mem_append_right _ List.mem_cons_self⟩

/-- A short reply to a fresh connection is placed. -/
theorem place_of_new {s : IpcServer n} {reply : Reply} {replies : List Reply} {inc : ℕ}
    (hq : s.txQueue = reply :: replies) (hfind : s.conns.find reply.msg.fd = some (inc, .new))
    (hlen : reply.response.length ≤ 65534) :
    ∃ s', s.place = some s' ∧ (inc, reply) ∈ s'.written := by
  have hpayload : reply.msg.payload.length = 2 + min reply.response.length 65535 :=
    IpcMessage.length_buildFrame _
  have hring : IpcReactor.Conn.new.txRing.writable = ipcMaxTxBufferSize :=
    ByteRingBuffer.writable_new _
  refine place_of_room hq hfind ?_
  rw [hring, hpayload, ipcMaxTxBufferSize]
  omega

/-- The request of the first client, on its first connection. -/
def firstRequest : Request := ⟨.ofBody 9 [5], 0⟩

/-- Two clients ask, and the workers answer in the other order. -/
def answeredActs : List (Act 3) :=
  [.accept 9, .accept 10, .receive 9 [0, 1, 5] true, .receive 10 [0, 1, 6] true, .dequeue 0, .dequeue 1,
    .answer 1 [8] true, .answer 0 [7] true, .place, .place]

theorem repliesOwned_answered :
    ∃ s, run step (init 3) answeredActs = some s ∧
      s.written.map (fun placed => (placed.1, placed.2.request.inc, placed.2.response)) =
        [(1, 1, [8]), (0, 0, [7])] ∧ s.RepliesOwned := by
  have hseen : (run step (init 3) answeredActs).map
      (fun s => s.written.map fun placed => (placed.1, placed.2.request.inc, placed.2.response)) =
        some [(1, 1, [8]), (0, 0, [7])] := by decide +kernel
  obtain ⟨s, hrun, hwritten⟩ := Option.map_eq_some_iff.mp hseen
  have hok : Along step FreshAccept (init 3) answeredActs := by
    -- the clients connect before there is a request
    refine ⟨by decide, fun t ht => ⟨?_, fun _ _ => along_of_forall ?_⟩⟩
    · cases ht
      decide
    · intro a ha s
      cases a with
      | accept fd => simp at ha
      | _ => trivial
  exact ⟨s, hrun, hwritten, repliesOwned_of_freshAccept hok hrun⟩

/-- The first client hangs up while a worker has its request, and a second client
    gets its number before the worker answers. -/
def reusedActs : List (Act 1) :=
  [.accept 9, .receive 9 [0, 1, 5] true, .dequeue 0, .close 9, .accept 9, .answer 0 [7] true]

/-- The second client gets the reply to the first client's request. -/
theorem not_repliesOwned_reused :
    ∃ s, run step (init 1) (reusedActs ++ [.place]) = some s ∧
      (1, ⟨firstRequest, [7]⟩) ∈ s.written ∧ ¬ s.RepliesOwned := by
  obtain ⟨t, hrun, hq, hfind⟩ : ∃ t, run step (init 1) reusedActs = some t ∧
      t.txQueue = [⟨firstRequest, [7]⟩] ∧ t.conns.find 9 = some (1, .new) := ⟨_, rfl, rfl, rfl⟩
  obtain ⟨s, hplace, hmem⟩ := place_of_new hq hfind (by decide)
  refine ⟨s, run_concat_eq_some.mpr ⟨t, hrun, hplace⟩, hmem, fun howned => ?_⟩
  cases (howned 1 _ hmem).2

end IpcServer

end NfEngine
