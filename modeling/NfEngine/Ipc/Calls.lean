-- SUMMARY: mgmtd's calls of IpcClient::send together with the IPC server, and that a call returns what the command handler has answered to it.
import Mathlib.Tactic.Abel
import NfEngine.Ipc.Line
import NfEngine.Ipc.ReplyOwnership

/-!
# Calls over the local socket

Each call of `IpcClient::send` is a line of its own. The clients write and read in pieces,
the reactor accepts, receives, places and sends in pieces, and the workers answer, all in
any order, and the kernel hands out closed descriptor numbers again.

A connection carries one request, which is in one place of the server at a time: serverd
closes the connection only when the reply is on its way or the client is gone. So a
request whose client still waits keeps its number, and the reply reaches the line it
belongs to.
-/

namespace NfEngine

open Lib Lib.Bytes Lib.Transition

/-! ## What the reactor sends -/

/-- `flushTxBuffer` sends from the front of the ring. -/
theorem IpcReactor.Conn.flush_split (results : List SendResult) (conn : IpcReactor.Conn) :
    ∃ rest, conn.txRing.content = (conn.flush results).1 ++ rest ∧
      ∀ conn', (conn.flush results).2 = some conn' → conn'.txRing.content = rest := by
  induction results generalizing conn with
  | nil =>
    refine ⟨conn.txRing.content, rfl, fun conn' hsome => ?_⟩
    simp only [flush] at hsome
    split at hsome
    next => cases hsome
    next =>
      cases hsome
      rfl
  | cons result results ih =>
    by_cases hzero : conn.txRing.readable = 0
    · refine ⟨conn.txRing.content, ?_, fun conn' hsome => ?_⟩
      · simp only [flush, if_pos hzero, List.nil_append]
      · simp only [flush, if_pos hzero] at hsome
        cases hsome
    · simp only [flush, if_neg hzero]
      cases result with
      | wouldBlock =>
        refine ⟨conn.txRing.content, rfl, fun conn' hsome => ?_⟩
        cases hsome
        rfl
      | failed => exact ⟨conn.txRing.content, rfl, fun conn' hsome => by cases hsome⟩
      | sent m =>
        have hle : min m conn.txRing.readLen ≤ conn.txRing.readLen := Nat.min_le_right _ _
        have hsplit := conn.valid.slice_append_consume hle
        dsimp only
        split
        next =>
          refine ⟨_, hsplit.symm, fun conn' hsome => ?_⟩
          cases hsome
          rfl
        next =>
          obtain ⟨rest, hrest, hopen⟩ := ih (conn.consume _ (hle.trans conn.txRing.readLen_le))
          refine ⟨rest, ?_, hopen⟩
          rw [List.append_assoc, ← hrest]
          exact hsplit.symm

/-- A kernel that takes all it is offered empties the ring. -/
theorem IpcReactor.Conn.flush_all {k : ℕ} {conn : IpcReactor.Conn} (hk : conn.txRing.readable ≤ k) :
    (conn.flush (List.replicate k (.sent ipcMaxTxBufferSize))).2 = none := by
  induction k generalizing conn with
  | zero => exact if_pos (Nat.le_zero.mp hk)
  | succ k ih =>
    rw [List.replicate_succ]
    by_cases hzero : conn.txRing.readable = 0
    · simp only [flush, if_pos hzero]
    · have hlen : conn.txRing.readLen ≤ ipcMaxTxBufferSize := by
        rw [← conn.capacity]
        exact (conn.txRing.readLen_le_end).trans (Nat.sub_le _ _)
      have hpos : 0 < conn.txRing.readLen := by
        have hhead := conn.valid.head_lt
        rw [ByteRingBuffer.readLen, if_neg hzero]
        omega
      simp only [flush, if_neg hzero, Nat.min_eq_right hlen, Nat.lt_irrefl, if_false]
      refine ih ?_
      change conn.txRing.readable - conn.txRing.readLen ≤ k
      omega

/-- A reply of at most the size of the ring fits a connection that is new. -/
theorem IpcReactor.Conn.exists_place_new {payload : List UInt8} (h : payload.length ≤ ipcMaxTxBufferSize) :
    ∃ conn, Conn.new.place payload = some conn ∧ conn.txRing.content = payload := by
  have hroom : payload.length ≤ Conn.new.txRing.writable := by
    rw [Conn.new, ByteRingBuffer.writable_new]
    exact h
  obtain ⟨conn, hconn, hcontent⟩ : ∃ conn, Conn.new.place payload = some conn ∧
      conn.txRing.content = Conn.new.txRing.content ++ payload := by
    generalize Conn.new = conn₀ at hroom ⊢
    obtain ⟨-, -, hcontent, -⟩ := conn₀.valid.write payload
    rw [List.take_of_length_le hroom] at hcontent
    exact ⟨_, if_neg (Nat.not_lt.mpr hroom), hcontent⟩
  refine ⟨conn, hconn, ?_⟩
  rw [hcontent, Conn.new, ByteRingBuffer.content_new, List.nil_append]

/-! ## Where requests are -/

namespace IpcServer

variable {n : ℕ}

/-- The requests inside the server. -/
def flight (s : IpcServer n) : Multiset Request :=
  ∑ w, (s.rxQueue w : Multiset Request) + ∑ w, ((s.inHand w).toList : Multiset Request) +
    (s.txQueue.map Reply.request : List Request)

/-- The requests inside the server and those whose reply was placed. -/
def tokens (s : IpcServer n) : Multiset Request :=
  s.flight + (s.written.map fun placed => placed.2.request : List Request)

variable {s s' : IpcServer n}

theorem mem_tokens_of_flight {request : Request} (h : request ∈ s.flight) : request ∈ s.tokens :=
  Multiset.mem_add.mpr (.inl h)

theorem mem_tokens_of_written {inc : ℕ} {reply : Reply} (h : (inc, reply) ∈ s.written) :
    reply.request ∈ s.tokens :=
  Multiset.mem_add.mpr (.inr (List.mem_map_of_mem (f := fun placed => placed.2.request) h))

/-- Receiving brings one request. -/
theorem receive_eq_some [NeZero n] {fd : Int} {frame : List UInt8} {enqueued : Bool}
    (h : s.receive fd frame enqueued = some s') :
    ∃ request conn rr rxQueue, s.conns.find fd = some (request.inc, conn) ∧ request.msg.fd = fd ∧
      request.msg.payload = frame ∧
      s' = { s with rr := rr, received := s.received ++ [request], rxQueue := rxQueue } ∧
      s'.flight ≤ request ::ₘ s.flight := by
  unfold receive at h
  split at h
  next inc conn msg hfind hmake =>
    cases h
    obtain ⟨hfd, hpayload⟩ := IpcMessage.make_eq_ok.mp hmake
    refine ⟨⟨msg, inc⟩, conn, _, _, hfind, hfd, hpayload, rfl, ?_⟩
    cases enqueued with
    | false => exact Multiset.le_cons_self _ _
    | true =>
      obtain ⟨rest, hbefore, hafter⟩ :=
        exists_sum_update_eq (fun q : List Request => (q : Multiset Request)) s.rxQueue s.nextWorker
      simp only [flight, if_true, hbefore, hafter, ← Multiset.coe_add, Multiset.coe_singleton,
        ← Multiset.singleton_add]
      exact le_of_eq (by abel)
  next => cases h

/-- A worker takes a request: it stays inside. -/
theorem dequeue_eq_some {w : Fin n} (h : s.dequeue w = some s') :
    ∃ request rest, s.rxQueue w = request :: rest ∧
      s' = { s with
        rxQueue := Function.update s.rxQueue w rest
        inHand := Function.update s.inHand w (some request) } ∧
      s'.flight = s.flight := by
  unfold dequeue at h
  split at h
  next request rest hq hhand =>
    cases h
    refine ⟨request, rest, hq, rfl, ?_⟩
    obtain ⟨queued, hqueued, hqueued'⟩ :=
      exists_sum_update_eq (fun q : List Request => (q : Multiset Request)) s.rxQueue w
    obtain ⟨held, hheld, hheld'⟩ :=
      exists_sum_update_eq (fun r : Option Request => (r.toList : Multiset Request)) s.inHand w
    simp only [flight, hqueued, hqueued', hheld, hheld', hq, hhand, Option.toList_some,
      Option.toList_none, Multiset.coe_nil, ← Multiset.cons_coe, ← Multiset.singleton_add]
    abel
  next => cases h

/-- A worker answers the request in its hand. -/
theorem answer_eq_some {w : Fin n} {response : List UInt8} {enqueued : Bool}
    (h : s.answer w response enqueued = some s') :
    ∃ request txQueue, request ∈ s.inHand w ∧
      (∀ reply ∈ txQueue, reply ∈ s.txQueue ∨ reply = ⟨request, response⟩) ∧
      s' = { s with inHand := Function.update s.inHand w none, txQueue := txQueue } ∧
      s'.flight ≤ s.flight := by
  unfold answer at h
  split at h
  next request hhand =>
    cases h
    obtain ⟨held, hheld, hheld'⟩ :=
      exists_sum_update_eq (fun r : Option Request => (r.toList : Multiset Request)) s.inHand w
    refine ⟨request, _, hhand, ?_, rfl, ?_⟩
    · intro reply hmem
      split at hmem
      next => simpa using hmem
      next => exact .inl hmem
    · simp only [flight, hheld, hheld', hhand, Option.toList_some, Option.toList_none,
        Multiset.coe_singleton, Multiset.coe_nil]
      cases enqueued with
      | false =>
        refine add_le_add_left (add_le_add_right ?_ _) _
        exact add_le_add_left (Multiset.zero_le _) _
      | true =>
        simp only [if_true, List.map_append, List.map_singleton, ← Multiset.coe_add,
          Multiset.coe_singleton]
        exact le_of_eq (by abel)
  next => cases h

/-- The reactor places a reply that fits. -/
theorem place_of_find {reply : Reply} {replies : List Reply} {inc : ℕ} {conn conn' : IpcReactor.Conn}
    (hq : s.txQueue = reply :: replies) (hfind : s.conns.find reply.msg.fd = some (inc, conn))
    (hplace : conn.place reply.msg.payload = some conn') :
    s.place = some { s with
      txQueue := replies
      conns := s.conns.insert reply.msg.fd (inc, conn')
      written := s.written ++ [(inc, reply)] } := by
  simp only [place, hq, hfind, hplace]

/-- The reactor takes a reply, and places it on the connection under its number or drops it. -/
theorem place_eq_some (h : s.place = some s') :
    ∃ reply replies, s.txQueue = reply :: replies ∧
      (s' = { s with txQueue := replies } ∨
        ∃ inc conn conn', s.conns.find reply.request.msg.fd = some (inc, conn) ∧
          conn.place reply.msg.payload = some conn' ∧
          s' = { s with
            txQueue := replies
            conns := s.conns.insert reply.request.msg.fd (inc, conn')
            written := s.written ++ [(inc, reply)] }) ∧
      s.flight = reply.request ::ₘ s'.flight := by
  unfold place at h
  split at h
  next => cases h
  next reply replies hq =>
    have hflight : s.flight = reply.request ::ₘ { s with txQueue := replies }.flight := by
      simp only [flight, hq, List.map_cons, ← Multiset.cons_coe, ← Multiset.singleton_add]
      abel
    refine ⟨reply, replies, hq, ?_⟩
    split at h
    next =>
      cases h
      exact ⟨.inl rfl, hflight⟩
    next inc conn hfind =>
      split at h
      next =>
        cases h
        exact ⟨.inl rfl, hflight⟩
      next conn' hplace =>
        cases h
        exact ⟨.inr ⟨inc, conn, conn', hfind, hplace, rfl⟩, hflight⟩

end IpcServer

/-! ## The system -/

/-- The lines in the order of their connections, of which `connected` are in use. serverd
    accepts them in this order, so the incarnation of a connection is the number of its line. -/
structure IpcSystem (n : ℕ) where
  lines : ℕ → IpcLine
  connected : ℕ
  server : IpcServer n

namespace IpcSystem

open IpcServer (Request Reply)

variable {n : ℕ}

def init (n : ℕ) : IpcSystem n := ⟨fun _ => .blank, 0, .init n⟩

def setLine (s : IpcSystem n) (i : ℕ) (line : IpcLine) : IpcSystem n :=
  { s with lines := Function.update s.lines i line }

def setServer (s : IpcSystem n) (server : IpcServer n) : IpcSystem n := { s with server := server }

def connect (s : IpcSystem n) (payload : List UInt8) : Option (IpcSystem n) :=
  (IpcLine.connect payload).map fun line =>
    { s.setLine s.connected line with connected := s.connected + 1 }

def acceptConnection (s : IpcSystem n) (fd : Int) : Option (IpcSystem n) :=
  if s.server.accepted < s.connected then (s.server.acceptConnection fd).map s.setServer else none

/-- `closeConnection`. -/
def close (s : IpcSystem n) (fd : Int) (i : ℕ) : IpcSystem n :=
  (s.setLine i { s.lines i with hungUp := true }).setServer (s.server.closeConnection fd)

/-- The messages of a round go to the workers; a full queue drops one. -/
def deliver [NeZero n] (server : IpcServer n) (fd : Int) :
    List IpcMessage → List Bool → Option (IpcServer n)
  | [], _ => some server
  | msg :: msgs, enqueued =>
    (server.receive fd msg.payload (enqueued.headD true)).bind fun server' =>
      deliver server' fd msgs enqueued.tail

/-- A round of `receive`. -/
def recv [NeZero n] (s : IpcSystem n) (fd : Int) (k : ℕ) (enqueued : List Bool) :
    Option (IpcSystem n) :=
  match s.server.conns.find fd with
  | none => none
  | some (i, _) =>
    match (s.lines i).recv fd k with
    | none => none
    | some (msgs, line, stays) =>
      (deliver s.server fd msgs enqueued).map fun server =>
        let s' := (s.setLine i line).setServer server
        if stays then s' else s'.close fd i

/-- `receive` finds no room in the ring. -/
def overflow (s : IpcSystem n) (fd : Int) : Option (IpcSystem n) :=
  match s.server.conns.find fd with
  | none => none
  | some (i, _) => if (s.lines i).rxRing.writeLen = 0 then some (s.close fd i) else none

/-- A hangup, an error or the end of the stream: the client has closed its end. -/
def hangup (s : IpcSystem n) (fd : Int) : Option (IpcSystem n) :=
  match s.server.conns.find fd with
  | none => none
  | some (i, _) => if (s.lines i).client.ended then some (s.close fd i) else none

def flush (s : IpcSystem n) (fd : Int) (results : List SendResult) : Option (IpcSystem n) :=
  match s.server.conns.find fd with
  | none => none
  | some (i, conn) =>
    if conn.txRing.readable = 0 then none
    else
      let line := s.lines i
      some ((s.setLine i { line with
          down := line.down ++ (conn.flush results).1
          hungUp := line.hungUp || (conn.flush results).2.isNone }).setServer
        (s.server.flushTxBuffer fd results))

inductive Act (n : ℕ) where
  | connect (payload : List UInt8)
  | write (i k : ℕ)
  | read (i k : ℕ)
  | endOfStream (i : ℕ)
  | fail (i : ℕ)
  | accept (fd : Int)
  | recv (fd : Int) (k : ℕ) (enqueued : List Bool)
  | overflow (fd : Int)
  | hangup (fd : Int)
  | dequeue (w : Fin n)
  | answer (w : Fin n) (response : List UInt8) (enqueued : Bool)
  | place
  | flush (fd : Int) (results : List SendResult)

def step [NeZero n] (s : IpcSystem n) : Act n → Option (IpcSystem n)
  | .connect payload => s.connect payload
  | .write i k => ((s.lines i).write k).map (s.setLine i)
  | .read i k => ((s.lines i).read k).map (s.setLine i)
  | .endOfStream i => (s.lines i).endOfStream.map (s.setLine i)
  | .fail i => (s.lines i).fail.map (s.setLine i)
  | .accept fd => s.acceptConnection fd
  | .recv fd k enqueued => s.recv fd k enqueued
  | .overflow fd => s.overflow fd
  | .hangup fd => s.hangup fd
  | .dequeue w => (s.server.dequeue w).map s.setServer
  | .answer w response enqueued => (s.server.answer w response enqueued).map s.setServer
  | .place => s.server.place.map s.setServer
  | .flush fd results => s.flush fd results

/-- The calls are with requests that serverd recognises, the answers are those of the command
    handler, and the kernel does not hand out the number of a client that has thrown as long
    as its request is inside the server. -/
def Regular (handler : List UInt8 → List UInt8 → Prop) (s : IpcSystem n) : Act n → Prop
  | .connect payload => payload.length ≤ 65535
  | .answer w response _ => ∀ request ∈ s.server.inHand w, handler request.msg.body response
  | .accept fd => ∀ request ∈ s.server.flight, request.msg.fd = fd →
      (s.lines request.inc).client.heard ≠ none
  | _ => True

instance decidableRegular (handler : List UInt8 → List UInt8 → Prop)
    [∀ body response, Decidable (handler body response)] (s : IpcSystem n) :
    (a : Act n) → Decidable (Regular handler s a)
  | .connect payload => inferInstanceAs (Decidable (payload.length ≤ 65535))
  | .answer w response _ =>
    inferInstanceAs (Decidable (∀ request ∈ s.server.inHand w, handler request.msg.body response))
  | .accept fd => inferInstanceAs (Decidable (∀ request ∈ s.server.flight, request.msg.fd = fd →
      (s.lines request.inc).client.heard ≠ none))
  | .write .. | .read .. | .endOfStream _ | .fail _ | .recv .. | .overflow _ | .hangup _ | .dequeue _
  | .place | .flush .. => isTrue trivial

end IpcSystem

/-! ## Invariants -/

namespace IpcServer

variable {n : ℕ}

/-- The bytes that were put into the transmit ring of a connection. -/
def placedOn (server : IpcServer n) (i : ℕ) : List UInt8 :=
  server.written.flatMap fun placed => if placed.1 = i then placed.2.msg.payload else []

/-- Each connection has a number and a request of its own, and a request inside the server has
    the number of its connection, if that is open. -/
structure Ok (handler : List UInt8 → List UInt8 → Prop) (server : IpcServer n) : Prop where
  old : ∀ fd i conn, server.conns.find fd = some (i, conn) → i < server.accepted
  injective : ∀ fd fd' i conn conn', server.conns.find fd = some (i, conn) →
    server.conns.find fd' = some (i, conn') → fd = fd'
  heardOf : ∀ request ∈ server.received, request.inc < server.accepted
  known : ∀ request ∈ server.tokens, request ∈ server.received
  once : (server.tokens.map Request.inc).Nodup
  current : ∀ request ∈ server.flight, ∀ i conn,
    server.conns.find request.msg.fd = some (i, conn) → request.inc = i
  waiting : ∀ reply ∈ server.txQueue, handler reply.request.msg.body reply.response
  placed : ∀ i reply, (i, reply) ∈ server.written → reply.request.inc = i ∧
    handler reply.request.msg.body reply.response ∧ reply.response.length ≤ 65534

/-- A line and the server: the request goes up once, its connection is open as long as it is
    inside and the client has not thrown, and what was placed for the client comes down. -/
structure LineOk (server : IpcServer n) (i : ℕ) (line : IpcLine) : Prop where
  bounded : line.payload.length ≤ 65535
  sent : ∀ request ∈ server.received, request.inc = i →
    line.Sent ∧ request.msg.payload = line.request
  sending : (∀ request ∈ server.received, request.inc ≠ i) → line.Sending
  live : ∀ request ∈ server.flight, request.inc = i → line.client.heard ≠ none →
    ∃ conn, server.conns.find request.msg.fd = some (i, conn)
  heard : ∀ bytes, line.client.heard = some bytes → bytes ++ line.down <+: server.placedOn i
  ring : ∀ bytes, line.client.heard = some bytes → ∀ fd conn,
    server.conns.find fd = some (i, conn) →
    bytes ++ line.down ++ conn.txRing.content = server.placedOn i

variable {handler : List UInt8 → List UInt8 → Prop} {server server' : IpcServer n} {i : ℕ}
  {line line' : IpcLine}

theorem tokens_init : (init n).tokens = 0 := by
  simp [tokens, flight, init]

theorem ok_init : (init n).Ok handler where
  old := by rintro fd i conn ⟨⟩
  injective := by rintro fd fd' i conn conn' ⟨⟩
  heardOf := by rintro request ⟨⟩
  known request hmem := by
    rw [tokens_init] at hmem
    exact absurd hmem (Multiset.notMem_zero _)
  once := by
    rw [tokens_init]
    exact Multiset.nodup_zero
  current := by rintro request _ i conn ⟨⟩
  waiting := by rintro reply ⟨⟩
  placed := by rintro i reply ⟨⟩

theorem lineOk_init : (init n).LineOk i .blank where
  bounded := Nat.zero_le _
  sent := by rintro request ⟨⟩
  sending _ := ⟨ByteRingBuffer.valid_new (by decide), ByteRingBuffer.length_buffer_new _,
    by simp [IpcLine.blank, ByteRingBuffer.content_new, IpcClient.Phase.unsent]⟩
  live request hmem := by
    have htoken := mem_tokens_of_flight hmem
    rw [tokens_init] at htoken
    exact absurd htoken (Multiset.notMem_zero _)
  heard := by
    rintro bytes ⟨⟩
    exact List.prefix_refl _
  ring := by rintro bytes ⟨⟩ fd conn ⟨⟩

theorem Ok.known_flight (h : server.Ok handler) {request : Request} (hmem : request ∈ server.flight) :
    request ∈ server.received := h.known request (mem_tokens_of_flight hmem)

/-- A request inside the server has no reply on a connection. -/
theorem Ok.not_placed (h : server.Ok handler) {request : Request} (hmem : request ∈ server.flight) :
    server.placedOn request.inc = [] := by
  refine List.flatMap_eq_nil_iff.mpr fun placed hplaced => ?_
  split
  next heq =>
    obtain ⟨hinc, -⟩ := h.placed placed.1 placed.2 hplaced
    have honce := h.once
    rw [tokens, Multiset.map_add, Multiset.nodup_add] at honce
    refine absurd (Multiset.mem_map_of_mem _ hmem) (Multiset.disjoint_right.mp honce.2.2 ?_)
    refine Multiset.mem_map.mpr ⟨placed.2.request, List.mem_map_of_mem (f := fun p => p.2.request) hplaced, ?_⟩
    rw [hinc, heq]
  next => rfl

/-- One reply is placed on a connection. -/
theorem Ok.placedOn_eq {reply : Reply} (h : server.Ok handler) (hmem : (i, reply) ∈ server.written) :
    server.placedOn i = reply.msg.payload := by
  have hkeys : (server.written.map Prod.fst).Nodup := by
    have honce := h.once
    rw [tokens, Multiset.map_add, Multiset.nodup_add] at honce
    have hwritten := honce.2.1
    rw [Multiset.map_coe, Multiset.coe_nodup, List.map_map] at hwritten
    rwa [List.map_congr_left fun placed hplaced => (h.placed placed.1 placed.2 hplaced).1.symm]
  obtain ⟨before, after, hwritten⟩ := List.append_of_mem hmem
  rw [hwritten, List.map_append, List.map_cons, List.nodup_middle, List.nodup_cons, List.mem_append,
    not_or] at hkeys
  have hnone : ∀ l : List (ℕ × Reply), i ∉ l.map Prod.fst →
      (l.flatMap fun placed => if placed.1 = i then placed.2.msg.payload else []) = [] := by
    intro l hl
    refine List.flatMap_eq_nil_iff.mpr fun placed hplaced => if_neg fun heq => hl ?_
    exact heq ▸ List.mem_map_of_mem hplaced
  rw [placedOn, hwritten, List.flatMap_append, List.flatMap_cons, hnone before hkeys.1.1,
    hnone after hkeys.1.2, if_pos rfl, List.nil_append, List.append_nil]

/-- Nothing was placed on a connection that serverd has not accepted. -/
theorem Ok.placedOn_eq_nil (h : server.Ok handler) (hi : server.accepted ≤ i) :
    server.placedOn i = [] := by
  refine List.flatMap_eq_nil_iff.mpr fun placed hmem => ?_
  split
  next heq =>
    obtain ⟨hinc, -⟩ := h.placed placed.1 placed.2 hmem
    have hlt := h.heardOf _ (h.known _ (mem_tokens_of_written hmem))
    omega
  next => rfl

/-! ### The client moves -/

theorem LineOk.client (h : server.LineOk i line) (hstep : IpcLine.ClientStep line line') :
    server.LineOk i line' where
  bounded := hstep.payload ▸ h.bounded
  sent request hmem hinc := by
    obtain ⟨hsent, hpayload⟩ := h.sent request hmem hinc
    refine ⟨hsent.client hstep, ?_⟩
    rwa [IpcLine.request, hstep.payload]
  sending hnot := (h.sending hnot).client hstep
  live request hmem hinc hheard := by
    refine h.live request hmem hinc fun hnone => hheard ?_
    cases hline : line'.client.heard with
    | none => rfl
    | some bytes' =>
      obtain ⟨bytes, hbytes, -⟩ := hstep.heard bytes' hline
      rw [hnone] at hbytes
      cases hbytes
  heard bytes' hheard := by
    obtain ⟨bytes, hbytes, hsame⟩ := hstep.heard bytes' hheard
    rw [hsame]
    exact h.heard bytes hbytes
  ring bytes' hheard fd conn hfind := by
    obtain ⟨bytes, hbytes, hsame⟩ := hstep.heard bytes' hheard
    rw [hsame]
    exact h.ring bytes hbytes fd conn hfind

/-- A client connects on a line that serverd does not know yet. -/
theorem lineOk_connect {payload : List UInt8} (h : server.Ok handler) (hi : server.accepted ≤ i)
    (hlen : payload.length ≤ 65535) (hconnect : IpcLine.connect payload = some line) :
    server.LineOk i line := by
  have hsending := IpcLine.sending_connect hconnect
  obtain ⟨hpayload, hheard, hdown⟩ := IpcLine.connect_eq_some hconnect
  constructor
  · exact hpayload ▸ hlen
  · intro request hmem hinc
    exact absurd (h.heardOf request hmem) (by omega)
  · exact fun _ => hsending
  · intro request hmem hinc
    exact absurd (h.heardOf request (h.known_flight hmem)) (by omega)
  · intro bytes hbytes
    cases hheard.symm.trans hbytes
    rw [hdown]
    exact List.nil_prefix
  · intro bytes _ fd conn hfind
    exact absurd (h.old fd i conn hfind) (by omega)

/-! ### The server moves -/

/-- A step that passes requests on inside the server, or drops them. -/
theorem Ok.inside (h : server.Ok handler) (hconns : server'.conns = server.conns)
    (haccepted : server'.accepted = server.accepted) (hreceived : server'.received = server.received)
    (hwritten : server'.written = server.written) (hflight : server'.flight ≤ server.flight)
    (hwaiting : ∀ reply ∈ server'.txQueue, handler reply.request.msg.body reply.response) :
    server'.Ok handler := by
  have htokens : server'.tokens ≤ server.tokens := by
    rw [tokens, tokens, hwritten]
    exact Multiset.add_le_add_right hflight
  constructor
  · rw [hconns, haccepted]
    exact h.old
  · rw [hconns]
    exact h.injective
  · rw [hreceived, haccepted]
    exact h.heardOf
  · intro request hmem
    rw [hreceived]
    exact h.known request (Multiset.mem_of_le htokens hmem)
  · exact Multiset.nodup_of_le (Multiset.map_le_map htokens) h.once
  · intro request hmem
    rw [hconns]
    exact h.current request (Multiset.mem_of_le hflight hmem)
  · exact hwaiting
  · rw [hwritten]
    exact h.placed

theorem placedOn_congr (hwritten : server'.written = server.written) :
    server'.placedOn i = server.placedOn i := by
  rw [placedOn, placedOn, hwritten]

theorem LineOk.inside (h : server.LineOk i line) (hconns : server'.conns = server.conns)
    (hreceived : server'.received = server.received) (hwritten : server'.written = server.written)
    (hflight : server'.flight ≤ server.flight) : server'.LineOk i line := by
  constructor
  · exact h.bounded
  · rw [hreceived]
    exact h.sent
  · rw [hreceived]
    exact h.sending
  · intro request hmem
    rw [hconns]
    exact h.live request (Multiset.mem_of_le hflight hmem)
  · rw [placedOn_congr hwritten]
    exact h.heard
  · rw [placedOn_congr hwritten, hconns]
    exact h.ring

/-- serverd accepts a connection under a number that nothing inside it has. -/
theorem Ok.accept {fd : Int} (h : server.Ok handler) (hfd : server.conns.find fd = none)
    (hfresh : ∀ request ∈ server.flight, request.msg.fd ≠ fd) :
    Ok handler { server with
      conns := server.conns.emplace fd (server.accepted, .new), accepted := server.accepted + 1 } := by
  constructor
  · intro fd' i conn hfind
    rcases Map.find_emplace_eq_some hfind with hold | ⟨-, hnew⟩
    · exact Nat.lt_succ_of_lt (h.old fd' i conn hold)
    · cases hnew
      exact Nat.lt_succ_self _
  · intro fd₁ fd₂ i conn₁ conn₂ hfind₁ hfind₂
    rcases Map.find_emplace_eq_some hfind₁ with hold₁ | ⟨rfl, hnew₁⟩ <;>
      rcases Map.find_emplace_eq_some hfind₂ with hold₂ | ⟨rfl, hnew₂⟩
    · exact h.injective fd₁ fd₂ i conn₁ conn₂ hold₁ hold₂
    · cases hnew₂
      exact absurd (h.old fd₁ _ conn₁ hold₁) (Nat.lt_irrefl _)
    · cases hnew₁
      exact absurd (h.old fd₂ _ conn₂ hold₂) (Nat.lt_irrefl _)
    · rfl
  · exact fun request hmem => Nat.lt_succ_of_lt (h.heardOf request hmem)
  · exact h.known
  · exact h.once
  · intro request hmem i conn hfind
    rcases Map.find_emplace_eq_some hfind with hold | ⟨heq, -⟩
    · exact h.current request hmem i conn hold
    · exact absurd heq (hfresh request hmem)
  · exact h.waiting
  · exact h.placed

theorem LineOk.accept {fd : Int} (h : server.LineOk i line) (hok : server.Ok handler) :
    LineOk { server with
      conns := server.conns.emplace fd (server.accepted, .new), accepted := server.accepted + 1 }
      i line := by
  refine ⟨h.bounded, h.sent, h.sending, ?_, h.heard, ?_⟩
  · intro request hmem hinc hheard
    obtain ⟨conn, hfind⟩ := h.live request hmem hinc hheard
    exact ⟨conn, Map.find_emplace_of_find hfind _ _⟩
  · intro bytes hheard fd' conn hfind
    rcases Map.find_emplace_eq_some hfind with hold | ⟨-, hnew⟩
    · exact h.ring bytes hheard fd' conn hold
    · -- nothing was placed on the new connection, and its ring is empty
      cases hnew
      have hnil : server.placedOn server.accepted = [] := hok.placedOn_eq_nil le_rfl
      have hbegin := h.heard bytes hheard
      rw [hnil, List.prefix_nil] at hbegin
      change bytes ++ line.down ++ IpcReactor.Conn.new.txRing.content = server.placedOn server.accepted
      rw [hbegin, hnil]
      exact ByteRingBuffer.content_new ipcMaxTxBufferSize

/-- The request of a connection reaches the server. -/
theorem Ok.receive {request : Request} {conn : IpcReactor.Conn} {rr : ℕ}
    {rxQueue : Fin n → List Request} (h : server.Ok handler)
    (hserver : server' = { server with
      rr := rr, received := server.received ++ [request], rxQueue := rxQueue })
    (hflight : server'.flight ≤ request ::ₘ server.flight)
    (hfind : server.conns.find request.msg.fd = some (request.inc, conn))
    (hnew : ∀ other ∈ server.received, other.inc ≠ request.inc) : server'.Ok handler := by
  have htokens : server'.tokens ≤ request ::ₘ server.tokens := by
    have hwritten : server'.written = server.written := by rw [hserver]
    rw [tokens, tokens, hwritten, ← Multiset.cons_add]
    exact Multiset.add_le_add_right hflight
  have hfresh : request.inc ∉ server.tokens.map Request.inc := by
    intro hmem
    obtain ⟨other, hother, heq⟩ := Multiset.mem_map.mp hmem
    exact hnew other (h.known other hother) heq
  constructor
  · rw [hserver]
    exact h.old
  · rw [hserver]
    exact h.injective
  · rw [hserver]
    intro other hmem
    rcases List.mem_append.mp hmem with hold | hlast
    · exact h.heardOf other hold
    · obtain rfl := List.mem_singleton.mp hlast
      exact h.old _ _ conn hfind
  · intro other hmem
    rw [hserver]
    rcases Multiset.mem_cons.mp (Multiset.mem_of_le htokens hmem) with rfl | hold
    · exact List.mem_append_right _ List.mem_cons_self
    · exact List.mem_append_left _ (h.known other hold)
  · refine Multiset.nodup_of_le (Multiset.map_le_map htokens) ?_
    rw [Multiset.map_cons]
    exact Multiset.nodup_cons.mpr ⟨hfresh, h.once⟩
  · intro other hmem j conn' hfind'
    have hconns : server'.conns = server.conns := by rw [hserver]
    rw [hconns] at hfind'
    rcases Multiset.mem_cons.mp (Multiset.mem_of_le hflight hmem) with rfl | hold
    · cases hfind.symm.trans hfind'
      rfl
    · exact h.current other hold j conn' hfind'
  · rw [hserver]
    exact h.waiting
  · rw [hserver]
    exact h.placed

/-- The line of the request has nothing left to send, and the other lines are as they were. -/
theorem LineOk.receive {request : Request} {conn : IpcReactor.Conn} {rr : ℕ}
    {rxQueue : Fin n → List Request} (h : server.LineOk i line)
    (hserver : server' = { server with
      rr := rr, received := server.received ++ [request], rxQueue := rxQueue })
    (hflight : server'.flight ≤ request ::ₘ server.flight)
    (hfind : server.conns.find request.msg.fd = some (request.inc, conn))
    (hnew : ∀ other ∈ server.received, other.inc ≠ request.inc)
    (hpayload : line'.payload = line.payload) (hclient : line'.client = line.client)
    (hdown : line'.down = line.down)
    (hmine : request.inc = i → line'.Sent ∧ request.msg.payload = line'.request)
    (hother : request.inc ≠ i → line' = line) : server'.LineOk i line' := by
  have hconns : server'.conns = server.conns := by rw [hserver]
  have hplaced : server'.placedOn i = server.placedOn i := placedOn_congr (by rw [hserver])
  have hreceived : server'.received = server.received ++ [request] := by rw [hserver]
  constructor
  · rw [hpayload]
    exact h.bounded
  · intro other hmem hinc
    rw [hreceived] at hmem
    rcases List.mem_append.mp hmem with hold | hlast
    · rw [hother fun heq => hnew other hold (hinc.trans heq.symm)]
      exact h.sent other hold hinc
    · obtain rfl := List.mem_singleton.mp hlast
      exact hmine hinc
  · intro hnot
    rw [hreceived] at hnot
    rw [hother (hnot request (List.mem_append_right _ List.mem_cons_self))]
    exact h.sending fun other hmem => hnot other (List.mem_append_left _ hmem)
  · intro other hmem hinc hheard
    rw [hconns]
    rcases Multiset.mem_cons.mp (Multiset.mem_of_le hflight hmem) with rfl | hold
    · exact ⟨conn, hinc ▸ hfind⟩
    · exact h.live other hold hinc (hclient ▸ hheard)
  · rw [hclient, hdown, hplaced]
    exact h.heard
  · rw [hclient, hdown, hplaced, hconns]
    exact h.ring

/-- The bytes of a reply that fits the ring. -/
theorem length_response_le {conn conn' : IpcReactor.Conn} {reply : Reply}
    (h : conn.place reply.msg.payload = some conn') :
    reply.response.length ≤ 65534 ∧
      conn'.txRing.content = conn.txRing.content ++ reply.msg.payload := by
  unfold IpcReactor.Conn.place at h
  split at h
  next => cases h
  next hroom =>
    cases h
    have hlen : reply.msg.payload.length = 2 + min reply.response.length 65535 :=
      IpcMessage.length_buildFrame _
    have hcap : conn.txRing.writable ≤ ipcMaxTxBufferSize := by
      rw [← conn.capacity]
      exact Nat.sub_le _ _
    have hfit := (Nat.not_lt.mp hroom).trans hcap
    rw [hlen, ipcMaxTxBufferSize] at hfit
    refine ⟨by omega, ?_⟩
    obtain ⟨-, -, hcontent, -⟩ := conn.valid.write reply.msg.payload
    rw [List.take_of_length_le (Nat.not_lt.mp hroom)] at hcontent
    exact hcontent

theorem placedOn_concat {reply : Reply} (hwritten : server'.written = server.written ++ [(i, reply)]) (j : ℕ) :
    server'.placedOn j = server.placedOn j ++ if i = j then reply.msg.payload else [] := by
  rw [placedOn, placedOn, hwritten, List.flatMap_append, List.flatMap_singleton]

/-- The ring of a connection changes. -/
theorem Ok.insert {fd : Int} {conn : IpcReactor.Conn} (h : server.Ok handler)
    (hfind : server.conns.find fd = some (i, conn)) (conn' : IpcReactor.Conn) :
    Ok handler { server with conns := server.conns.insert fd (i, conn') } := by
  have hback : ∀ {fd' j c}, (server.conns.insert fd (i, conn')).find fd' = some (j, c) →
      ∃ c', server.conns.find fd' = some (j, c') := fun hfd => find_of_insert hfind hfd
  constructor
  · intro fd' j c hfd
    obtain ⟨c', hold⟩ := hback hfd
    exact h.old fd' j c' hold
  · intro fd₁ fd₂ j c₁ c₂ h₁ h₂
    obtain ⟨d₁, hold₁⟩ := hback h₁
    obtain ⟨d₂, hold₂⟩ := hback h₂
    exact h.injective fd₁ fd₂ j d₁ d₂ hold₁ hold₂
  · exact h.heardOf
  · exact h.known
  · exact h.once
  · intro request hmem j c hfd
    obtain ⟨c', hold⟩ := hback hfd
    exact h.current request hmem j c' hold
  · exact h.waiting
  · exact h.placed

/-- A reply is placed on the connection of its request. -/
theorem Ok.place {reply : Reply} {replies : List Reply} {conn conn' : IpcReactor.Conn}
    (h : server.Ok handler) (hq : server.txQueue = reply :: replies)
    (hflight : server.flight = reply.request ::ₘ server'.flight)
    (hfind : server.conns.find reply.request.msg.fd = some (i, conn))
    (hplace : conn.place reply.msg.payload = some conn')
    (hserver : server' = { server with
      txQueue := replies
      conns := server.conns.insert reply.request.msg.fd (i, conn')
      written := server.written ++ [(i, reply)] }) : server'.Ok handler := by
  have hmem : reply.request ∈ server.flight := hflight ▸ Multiset.mem_cons_self _ _
  have hinc : reply.request.inc = i := h.current _ hmem i conn hfind
  have hinsert := h.insert hfind conn'
  have htokens : server'.tokens = server.tokens := by
    rw [tokens, tokens, hflight, hserver, List.map_append, ← Multiset.coe_add, List.map_singleton,
      Multiset.coe_singleton, ← Multiset.singleton_add]
    abel
  subst hserver
  refine ⟨hinsert.old, hinsert.injective, h.heardOf, ?_, ?_, ?_, ?_, ?_⟩
  · rw [htokens]
    exact h.known
  · rw [htokens]
    exact h.once
  · intro request hrequest
    exact hinsert.current request (hflight ▸ Multiset.mem_cons_of_mem hrequest)
  · intro other hother
    exact h.waiting other (hq ▸ List.mem_cons_of_mem _ hother)
  · intro j other hother
    rcases List.mem_append.mp hother with hold | hlast
    · exact h.placed j other hold
    · cases List.mem_singleton.mp hlast
      exact ⟨hinc, h.waiting reply (hq ▸ List.mem_cons_self), (length_response_le hplace).1⟩

theorem LineOk.place {reply : Reply} {replies : List Reply} {conn conn' : IpcReactor.Conn} {j : ℕ}
    (h : server.LineOk j line) (hok : server.Ok handler)
    (hflight : server.flight = reply.request ::ₘ server'.flight)
    (hfind : server.conns.find reply.request.msg.fd = some (i, conn))
    (hplace : conn.place reply.msg.payload = some conn')
    (hserver : server' = { server with
      txQueue := replies
      conns := server.conns.insert reply.request.msg.fd (i, conn')
      written := server.written ++ [(i, reply)] }) : server'.LineOk j line := by
  have hconns : server'.conns = server.conns.insert reply.request.msg.fd (i, conn') := by rw [hserver]
  have hreceived : server'.received = server.received := by rw [hserver]
  have hplaced : server'.placedOn j = server.placedOn j ++ if i = j then reply.msg.payload else [] :=
    placedOn_concat (by rw [hserver]) j
  constructor
  · exact h.bounded
  · rw [hreceived]
    exact h.sent
  · rw [hreceived]
    exact h.sending
  · intro request hmem hinc hheard
    obtain ⟨c, hold⟩ := h.live request (hflight ▸ Multiset.mem_cons_of_mem hmem) hinc hheard
    rw [hconns, Map.find_insert]
    split
    next heq =>
      rw [heq] at hold
      cases hfind.symm.trans hold
      exact ⟨conn', rfl⟩
    next => exact ⟨c, hold⟩
  · intro bytes hheard
    rw [hplaced]
    exact (h.heard bytes hheard).trans (List.prefix_append _ _)
  · intro bytes hheard fd c hfd
    rw [hplaced]
    rw [hconns, Map.find_insert] at hfd
    split at hfd
    next heq =>
      cases hfd
      rw [if_pos rfl, ← h.ring bytes hheard _ conn hfind, (length_response_le hplace).2]
      simp only [List.append_assoc]
    next hne =>
      -- the connection under another number is another one
      have hi : i ≠ j := by
        rintro rfl
        exact hne (hok.injective _ _ _ _ _ hfd hfind)
      rw [if_neg hi, List.append_nil]
      exact h.ring bytes hheard fd c hfd

/-- serverd closes a connection, of which no client waits for the answer to a request inside. -/
theorem Ok.close (h : server.Ok handler) (fd : Int) : (server.closeConnection fd).Ok handler where
  old fd' j c hfd := h.old fd' j c (Map.find_erase_eq_some.mp hfd).2
  injective fd₁ fd₂ j c₁ c₂ h₁ h₂ := h.injective fd₁ fd₂ j c₁ c₂ (Map.find_erase_eq_some.mp h₁).2
    (Map.find_erase_eq_some.mp h₂).2
  heardOf := h.heardOf
  known := h.known
  once := h.once
  current request hmem j c hfd := h.current request hmem j c (Map.find_erase_eq_some.mp hfd).2
  waiting := h.waiting
  placed := h.placed

theorem LineOk.close {fd : Int} (h : server.LineOk i line)
    (hquiet : line.client.heard ≠ none → ∀ request ∈ server.flight, request.inc = i →
      request.msg.fd ≠ fd) : (server.closeConnection fd).LineOk i line := by
  refine ⟨h.bounded, h.sent, h.sending, ?_, h.heard, ?_⟩
  · intro request hmem hinc hheard
    obtain ⟨conn, hfind⟩ := h.live request hmem hinc hheard
    exact ⟨conn, Map.find_erase_eq_some.mpr ⟨hquiet hheard request hmem hinc, hfind⟩⟩
  · intro bytes hheard fd' conn hfind
    exact h.ring bytes hheard fd' conn (Map.find_erase_eq_some.mp hfind).2

/-- What the server knows of a line does not change when bytes come down to it. -/
theorem LineOk.flush {fd : Int} {conn conn' : IpcReactor.Conn} {sent : List UInt8}
    (h : server.LineOk i line) (hok : server.Ok handler)
    (hfind : server.conns.find fd = some (i, conn))
    (hsplit : conn.txRing.content = sent ++ conn'.txRing.content) (hungUp : Bool) :
    LineOk { server with conns := server.conns.insert fd (i, conn') } i
      { line with down := line.down ++ sent, hungUp := hungUp } := by
  have hring : ∀ bytes, line.client.heard = some bytes →
      bytes ++ (line.down ++ sent) ++ conn'.txRing.content = server.placedOn i := by
    intro bytes hheard
    rw [← h.ring bytes hheard fd conn hfind, hsplit]
    simp only [List.append_assoc]
  constructor
  · exact h.bounded
  · intro request hmem hinc
    obtain ⟨hsent, hrequest⟩ := h.sent request hmem hinc
    exact ⟨⟨hsent.valid, hsent.capacity, hsent.way⟩, hrequest⟩
  · intro hnot
    exact ⟨(h.sending hnot).valid, (h.sending hnot).capacity, (h.sending hnot).way⟩
  · intro request hmem hinc hheard
    obtain ⟨c, hold⟩ := h.live request hmem hinc hheard
    change ∃ c, (server.conns.insert fd (i, conn')).find request.msg.fd = some (i, c)
    rw [Map.find_insert]
    split
    next => exact ⟨conn', rfl⟩
    next => exact ⟨c, hold⟩
  · intro bytes hheard
    exact ⟨_, hring bytes hheard⟩
  · intro bytes hheard fd' c hfd
    change (server.conns.insert fd (i, conn')).find fd' = some (i, c) at hfd
    rw [Map.find_insert] at hfd
    split at hfd
    next =>
      cases hfd
      exact hring bytes hheard
    next hne => exact absurd (hok.injective fd' fd i c conn hfd hfind) hne

theorem LineOk.flush_other {fd : Int} {conn : IpcReactor.Conn} {j : ℕ} (h : server.LineOk j line)
    (hfind : server.conns.find fd = some (i, conn)) (hj : j ≠ i) (conn' : IpcReactor.Conn) :
    LineOk { server with conns := server.conns.insert fd (i, conn') } j line := by
  refine ⟨h.bounded, h.sent, h.sending, ?_, h.heard, ?_⟩
  · intro request hmem hinc hheard
    obtain ⟨c, hold⟩ := h.live request hmem hinc hheard
    refine ⟨c, ?_⟩
    rw [Map.find_insert_ne]
    · exact hold
    · rintro rfl
      cases hfind.symm.trans hold
      exact hj rfl
  · intro bytes hheard fd' c hfd
    change (server.conns.insert fd (i, conn')).find fd' = some (j, c) at hfd
    rw [Map.find_insert] at hfd
    split at hfd
    next =>
      cases hfd
      exact absurd rfl hj
    next => exact h.ring bytes hheard fd' c hfd

/-- The last bytes come down, and the connection is closed. -/
theorem LineOk.flush_close {fd : Int} {conn : IpcReactor.Conn} {sent rest : List UInt8}
    (h : server.LineOk i line) (hok : server.Ok handler)
    (hfind : server.conns.find fd = some (i, conn)) (hsplit : conn.txRing.content = sent ++ rest)
    (hquiet : line.client.heard ≠ none → ∀ request ∈ server.flight, request.inc = i →
      request.msg.fd ≠ fd) (hungUp : Bool) :
    (server.closeConnection fd).LineOk i { line with down := line.down ++ sent, hungUp := hungUp } := by
  have hclosed := h.close hquiet
  constructor
  · exact h.bounded
  · intro request hmem hinc
    obtain ⟨hsent, hrequest⟩ := h.sent request hmem hinc
    exact ⟨⟨hsent.valid, hsent.capacity, hsent.way⟩, hrequest⟩
  · intro hnot
    exact ⟨(h.sending hnot).valid, (h.sending hnot).capacity, (h.sending hnot).way⟩
  · exact hclosed.live
  · intro bytes hheard
    refine ⟨rest, ?_⟩
    change bytes ++ (line.down ++ sent) ++ rest = server.placedOn i
    rw [← h.ring bytes hheard fd conn hfind, hsplit]
    simp only [List.append_assoc]
  · intro bytes hheard fd' c hfd
    obtain ⟨hne, hold⟩ := Map.find_erase_eq_some.mp hfd
    exact absurd (hok.injective fd' fd i c conn hold hfind) hne

theorem LineOk.hangUp (h : server.LineOk i line) (hungUp : Bool) :
    server.LineOk i { line with hungUp := hungUp } where
  bounded := h.bounded
  sent request hmem hinc :=
    have hsent := (h.sent request hmem hinc).1
    ⟨⟨hsent.valid, hsent.capacity, hsent.way⟩, (h.sent request hmem hinc).2⟩
  sending hnot := ⟨(h.sending hnot).valid, (h.sending hnot).capacity, (h.sending hnot).way⟩
  live := h.live
  heard := h.heard
  ring := h.ring

/-- serverd reads a part of the request. -/
theorem LineOk.recv (h : server.LineOk i line)
    (hnew : ∀ request ∈ server.received, request.inc ≠ i) (hpayload : line'.payload = line.payload)
    (hclient : line'.client = line.client) (hdown : line'.down = line.down)
    (hsending : line'.Sending) : server.LineOk i line' where
  bounded := hpayload ▸ h.bounded
  sent request hmem hinc := absurd hinc (hnew request hmem)
  sending _ := hsending
  live := by
    rw [hclient]
    exact h.live
  heard := by
    rw [hclient, hdown]
    exact h.heard
  ring := by
    rw [hclient, hdown]
    exact h.ring

/-- The client of a request inside the server has heard nothing. -/
theorem Ok.heard_eq_nil (hok : server.Ok handler) (h : server.LineOk i line) {bytes : List UInt8}
    (hheard : line.client.heard = some bytes) {request : Request} (hmem : request ∈ server.flight)
    (hinc : request.inc = i) : bytes = [] ∧ server.placedOn i = [] := by
  have hnil := hok.not_placed hmem
  rw [hinc] at hnil
  have hbegin := h.heard bytes hheard
  rw [hnil, List.prefix_nil] at hbegin
  exact ⟨(List.append_eq_nil_iff.mp hbegin).1, hnil⟩

end IpcServer

end NfEngine
