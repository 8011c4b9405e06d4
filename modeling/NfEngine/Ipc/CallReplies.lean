-- SUMMARY: A call of IpcClient::send that returns has returned what serverd has answered to it.
import NfEngine.Ipc.Calls

/-!
# The replies of calls

Over whole runs of the clients and the IPC server.
-/

namespace NfEngine

open Lib Lib.Bytes Lib.Transition

/-! ## Whole runs -/

namespace IpcSystem

variable {n : ℕ}

structure Inv (handler : List UInt8 → List UInt8 → Prop) (s : IpcSystem n) : Prop where
  server : s.server.Ok handler
  accepted : s.server.accepted ≤ s.connected
  lines : ∀ i, s.server.LineOk i (s.lines i)

variable {handler : List UInt8 → List UInt8 → Prop} {s s' : IpcSystem n}

theorem inv_init : (init n).Inv handler :=
  ⟨IpcServer.ok_init, le_rfl, fun _ => IpcServer.lineOk_init⟩

theorem lines_setLine (s : IpcSystem n) (i j : ℕ) (line : IpcLine) :
    (s.setLine i line).lines j = if j = i then line else s.lines j := by
  simp only [setLine, Function.update_apply]

theorem Inv.setLine {i : ℕ} {line : IpcLine} (h : s.Inv handler) (hline : s.server.LineOk i line) :
    (s.setLine i line).Inv handler := by
  refine ⟨h.server, h.accepted, fun j => ?_⟩
  rw [lines_setLine]
  split
  next hj => exact hj ▸ hline
  next => exact h.lines j

theorem Inv.client {i : ℕ} {line : IpcLine} (h : s.Inv handler)
    (hstep : IpcLine.ClientStep (s.lines i) line) : (s.setLine i line).Inv handler :=
  h.setLine ((h.lines i).client hstep)

theorem Inv.connect {payload : List UInt8} (h : s.Inv handler) (hlen : payload.length ≤ 65535)
    (hstep : s.connect payload = some s') : s'.Inv handler := by
  obtain ⟨line, hconnect, rfl⟩ := Option.map_eq_some_iff.mp hstep
  have hset := h.setLine (IpcServer.lineOk_connect h.server h.accepted hlen hconnect)
  exact ⟨hset.server, h.accepted.trans (Nat.le_succ _), hset.lines⟩

theorem Inv.accept {fd : Int} (h : s.Inv handler)
    (hok : ∀ request ∈ s.server.flight, request.msg.fd = fd →
      (s.lines request.inc).client.heard ≠ none)
    (hstep : s.acceptConnection fd = some s') : s'.Inv handler := by
  unfold acceptConnection IpcServer.acceptConnection at hstep
  split at hstep
  next hlt =>
    split at hstep
    next hfd =>
      cases hstep
      have hnone : s.server.conns.find fd = none := Map.contains_eq_false.mp hfd.2
      -- the connection of a request with this number would be open
      have hfresh : ∀ request ∈ s.server.flight, request.msg.fd ≠ fd := by
        intro request hmem heq
        obtain ⟨conn, hfind⟩ := (h.lines request.inc).live request hmem rfl (hok request hmem heq)
        rw [heq, hnone] at hfind
        cases hfind
      exact ⟨h.server.accept hnone hfresh, hlt, fun i => (h.lines i).accept h.server⟩
    next => cases hstep
  next => cases hstep

/-- A round of `receive` keeps the connection open, and hands on the request or nothing. -/
theorem Inv.recv [NeZero n] {fd : Int} {k : ℕ} {enqueued : List Bool} (h : s.Inv handler)
    (hstep : s.recv fd k enqueued = some s') : s'.Inv handler := by
  unfold IpcSystem.recv at hstep
  split at hstep
  next => cases hstep
  next i conn hfind =>
    split at hstep
    next => cases hstep
    next msgs line stays hrecv =>
      obtain ⟨server, hdeliver, rfl⟩ := Option.map_eq_some_iff.mp hstep
      have hline := h.lines i
      -- a line that has sent its request has nothing to receive
      have hnew : ∀ request ∈ s.server.received, request.inc ≠ i := by
        intro request hmem hinc
        rw [(hline.sent request hmem hinc).1.recv_eq_none] at hrecv
        cases hrecv
      obtain ⟨rfl, hpayload, hclient, hdown, hcases⟩ := (hline.sending hnew).recv hline.bounded hrecv
      rcases hcases with ⟨rfl, hsending, -⟩ | ⟨msg, rfl, hfd, hrequest, hsent⟩
      · cases hdeliver
        exact h.setLine (hline.recv hnew hpayload hclient hdown hsending)
      · obtain ⟨server', hreceive, hrest⟩ := Option.bind_eq_some_iff.mp hdeliver
        cases hrest
        obtain ⟨request, conn', rr, rxQueue, hfind', hmsgfd, hframe, hserver, hflight⟩ :=
          IpcServer.receive_eq_some hreceive
        obtain rfl : i = request.inc := by
          cases hfind.symm.trans hfind'
          rfl
        rw [← hmsgfd] at hfind'
        refine ⟨h.server.receive hserver hflight hfind' hnew, ?_, fun j => ?_⟩
        · change server.accepted ≤ s.connected
          rw [hserver]
          exact h.accepted
        · change server.LineOk j ((s.setLine request.inc line).lines j)
          rw [lines_setLine]
          split
          next hj =>
            subst hj
            refine hline.receive hserver hflight hfind' hnew hpayload hclient hdown (fun _ => ?_)
              fun hne => absurd rfl hne
            refine ⟨hsent, ?_⟩
            rw [hframe, hrequest, IpcLine.request, IpcLine.request, hpayload]
          next hj =>
            exact (h.lines j).receive hserver hflight hfind' hnew rfl rfl rfl
              (fun heq => absurd heq.symm hj) fun _ => rfl

/-- serverd closes a connection whose client waits for no request inside the server. -/
theorem Inv.close {fd : Int} {i : ℕ} {conn : IpcReactor.Conn} (h : s.Inv handler)
    (hfind : s.server.conns.find fd = some (i, conn))
    (hquiet : (s.lines i).client.heard ≠ none → ∀ request ∈ s.server.flight, request.inc ≠ i) :
    (s.close fd i).Inv handler := by
  refine ⟨h.server.close fd, h.accepted, fun j => ?_⟩
  change (s.server.closeConnection fd).LineOk j ((s.setLine i { s.lines i with hungUp := true }).lines j)
  rw [lines_setLine]
  split
  next hj =>
    subst hj
    refine ((h.lines j).close fun hheard request hmem hinc => ?_).hangUp true
    exact absurd hinc (hquiet hheard request hmem)
  next hj =>
    refine (h.lines j).close fun _ request hmem hinc heq => hj ?_
    rw [← hinc]
    exact h.server.current request hmem i conn (heq ▸ hfind)

/-- A connection without room in its receive ring has not sent its request yet. -/
theorem Inv.overflow {fd : Int} (h : s.Inv handler) (hstep : s.overflow fd = some s') :
    s'.Inv handler := by
  unfold IpcSystem.overflow at hstep
  split at hstep
  next => cases hstep
  next i conn hfind =>
    split at hstep
    next hfull =>
      cases hstep
      refine h.close hfind fun _ request hmem hinc => ?_
      obtain ⟨hsent, -⟩ := (h.lines i).sent request (h.server.known_flight hmem) hinc
      have hnil := (List.append_eq_nil_iff.mp hsent.way).1
      have hroom := hsent.valid.writeLen_pos (by rw [hnil, hsent.capacity]; decide)
      omega
    next => cases hstep

/-- A client whose call is over has thrown, or has its reply. -/
theorem Inv.hangup {fd : Int} (h : s.Inv handler) (hstep : s.hangup fd = some s') :
    s'.Inv handler := by
  unfold IpcSystem.hangup at hstep
  split at hstep
  next => cases hstep
  next i conn hfind =>
    split at hstep
    next hended =>
      cases hstep
      refine h.close hfind fun hheard request hmem hinc => ?_
      cases hphase : (s.lines i).client with
      | threw error => exact hheard (by rw [hphase]; rfl)
      | returned reply =>
        obtain ⟨hnil, -⟩ := h.server.heard_eq_nil (h.lines i) (by rw [hphase]; rfl) hmem hinc
        cases hnil
      | idle | header | body | readHeader | readBody =>
        rw [hphase] at hended
        cases hended
    next => cases hstep

/-- A step inside the server. -/
theorem Inv.inside {server : IpcServer n} (h : s.Inv handler) (hconns : server.conns = s.server.conns)
    (haccepted : server.accepted = s.server.accepted)
    (hreceived : server.received = s.server.received) (hwritten : server.written = s.server.written)
    (hflight : server.flight ≤ s.server.flight)
    (hwaiting : ∀ reply ∈ server.txQueue, handler reply.request.msg.body reply.response) :
    (s.setServer server).Inv handler where
  server := h.server.inside hconns haccepted hreceived hwritten hflight hwaiting
  accepted := haccepted.le.trans h.accepted
  lines i := (h.lines i).inside hconns hreceived hwritten hflight

theorem Inv.dequeue {w : Fin n} {server : IpcServer n} (h : s.Inv handler)
    (hstep : s.server.dequeue w = some server) : (s.setServer server).Inv handler := by
  obtain ⟨request, rest, -, rfl, hflight⟩ := IpcServer.dequeue_eq_some hstep
  exact h.inside rfl rfl rfl rfl hflight.le h.server.waiting

theorem Inv.answer {w : Fin n} {response : List UInt8} {enqueued : Bool} {server : IpcServer n}
    (h : s.Inv handler)
    (hanswer : ∀ request ∈ s.server.inHand w, handler request.msg.body response)
    (hstep : s.server.answer w response enqueued = some server) : (s.setServer server).Inv handler := by
  obtain ⟨request, txQueue, hhand, hqueue, rfl, hflight⟩ := IpcServer.answer_eq_some hstep
  refine h.inside rfl rfl rfl rfl hflight fun reply hmem => ?_
  rcases hqueue reply hmem with hold | rfl
  · exact h.server.waiting reply hold
  · exact hanswer request hhand

theorem Inv.place {server : IpcServer n} (h : s.Inv handler) (hstep : s.server.place = some server) :
    (s.setServer server).Inv handler := by
  obtain ⟨reply, replies, hq, hcases, hflight⟩ := IpcServer.place_eq_some hstep
  rcases hcases with hserver | ⟨i, conn, conn', hfind, hplace, hserver⟩
  · subst hserver
    refine h.inside rfl rfl rfl rfl ?_ fun other hmem => ?_
    · rw [hflight]
      exact Multiset.le_cons_self _ _
    · exact h.server.waiting other (hq ▸ List.mem_cons_of_mem _ hmem)
  · refine ⟨h.server.place hq hflight hfind hplace hserver, ?_, fun j => ?_⟩
    · change server.accepted ≤ s.connected
      rw [hserver]
      exact h.accepted
    · exact (h.lines j).place h.server hflight hfind hplace hserver

/-- A connection with bytes in its transmit ring has its reply there. -/
theorem Inv.flush {fd : Int} {results : List SendResult} (h : s.Inv handler)
    (hstep : s.flush fd results = some s') : s'.Inv handler := by
  unfold IpcSystem.flush at hstep
  split at hstep
  next => cases hstep
  next i conn hfind =>
    split at hstep
    next => cases hstep
    next hsome =>
      obtain ⟨rest, hsplit, hopen⟩ := IpcReactor.Conn.flush_split results conn
      have hquiet : (s.lines i).client.heard ≠ none → ∀ request ∈ s.server.flight,
          request.inc ≠ i := by
        intro hheard request hmem hinc
        obtain ⟨bytes, hbytes⟩ := Option.ne_none_iff_exists'.mp hheard
        obtain ⟨-, hnil⟩ := h.server.heard_eq_nil (h.lines i) hbytes hmem hinc
        have hring := (h.lines i).ring bytes hbytes fd conn hfind
        rw [hnil, List.append_eq_nil_iff] at hring
        refine hsome ?_
        rw [← conn.valid.length_content, hring.2]
        rfl
      have hother : ∀ j, j ≠ i → (s.server.closeConnection fd).LineOk j (s.lines j) := by
        intro j hj
        refine (h.lines j).close fun _ request hmem hinc heq => hj ?_
        rw [← hinc]
        exact h.server.current request hmem i conn (heq ▸ hfind)
      cases hstep
      cases hresult : (conn.flush results).2 with
      | none =>
        have hserver : s.server.flushTxBuffer fd results = s.server.closeConnection fd := by
          simp only [IpcServer.flushTxBuffer, hfind, if_neg hsome, hresult]
        rw [hserver]
        refine ⟨h.server.close fd, h.accepted, fun j => ?_⟩
        change (s.server.closeConnection fd).LineOk j ((s.setLine i _).lines j)
        rw [lines_setLine]
        split
        next hj =>
          subst hj
          refine (h.lines j).flush_close h.server hfind hsplit (fun hheard request hmem hinc => ?_) _
          exact absurd hinc (hquiet hheard request hmem)
        next hj => exact hother j hj
      | some conn' =>
        have hserver : s.server.flushTxBuffer fd results =
            { s.server with conns := s.server.conns.insert fd (i, conn') } := by
          simp only [IpcServer.flushTxBuffer, hfind, if_neg hsome, hresult]
        rw [hserver]
        refine ⟨h.server.insert hfind conn', h.accepted, fun j => ?_⟩
        change IpcServer.LineOk _ j ((s.setLine i _).lines j)
        rw [lines_setLine]
        split
        next hj =>
          subst hj
          exact (h.lines j).flush h.server hfind (hopen conn' hresult ▸ hsplit) _
        next hj => exact (h.lines j).flush_other hfind hj conn'

theorem Inv.step [NeZero n] {a : Act n} (h : s.Inv handler) (hok : s.Regular handler a)
    (hstep : s.step a = some s') : s'.Inv handler := by
  cases a with
  | connect payload => exact h.connect hok hstep
  | write i k =>
    obtain ⟨line, hline, rfl⟩ := Option.map_eq_some_iff.mp hstep
    exact h.client (IpcLine.clientStep_write hline)
  | read i k =>
    obtain ⟨line, hline, rfl⟩ := Option.map_eq_some_iff.mp hstep
    exact h.client (IpcLine.clientStep_read hline)
  | endOfStream i =>
    obtain ⟨line, hline, rfl⟩ := Option.map_eq_some_iff.mp hstep
    exact h.client (IpcLine.clientStep_endOfStream hline)
  | fail i =>
    obtain ⟨line, hline, rfl⟩ := Option.map_eq_some_iff.mp hstep
    exact h.client (IpcLine.clientStep_fail hline)
  | accept fd => exact h.accept hok hstep
  | recv fd k enqueued => exact h.recv hstep
  | overflow fd => exact h.overflow hstep
  | hangup fd => exact h.hangup hstep
  | dequeue w =>
    obtain ⟨server, hserver, rfl⟩ := Option.map_eq_some_iff.mp hstep
    exact h.dequeue hserver
  | answer w response enqueued =>
    obtain ⟨server, hserver, rfl⟩ := Option.map_eq_some_iff.mp hstep
    exact h.answer hok hserver
  | place =>
    obtain ⟨server, hserver, rfl⟩ := Option.map_eq_some_iff.mp hstep
    exact h.place hserver
  | flush fd results => exact h.flush hstep

/-- The reply that a client has read to its end. -/
theorem reply_eq_of_heard {reply down response : List UInt8} (hlen : response.length ≤ 65534)
    (h : beBytes 2 reply.length ++ reply ++ down <+: beBytes 2 response.length ++ response) :
    reply = response := by
  obtain ⟨rest, hrest⟩ := h
  simp only [List.append_assoc] at hrest
  obtain ⟨hhead, hbody⟩ := List.append_inj hrest (by simp)
  have hle : reply.length ≤ response.length := by
    rw [← hbody, List.length_append]
    exact Nat.le_add_right _ _
  have hsame : reply.length = response.length := by
    have hnat := congrArg beNat hhead
    rwa [beNat_beBytes (show reply.length < 256 ^ 2 by omega),
      beNat_beBytes (show response.length < 256 ^ 2 by omega)] at hnat
  have hnil : down ++ rest = [] := by
    have hcount := congrArg List.length hbody
    rw [List.length_append] at hcount
    exact List.eq_nil_of_length_eq_zero (by omega)
  rwa [hnil, List.append_nil] at hbody

/-! ## A call that is served -/

section Served

/-- The system with one line and one connection. -/
structure At (s : IpcSystem 1) (line : IpcLine) (server : IpcServer 1) : Prop where
  lines : s.lines 0 = line
  connected : s.connected = 1
  server : s.server = server

variable {s : IpcSystem 1} {line line' : IpcLine} {server server' : IpcServer 1}

theorem At.setLine (h : s.At line server) (line' : IpcLine) : (s.setLine 0 line').At line' server :=
  ⟨by rw [lines_setLine, if_pos rfl], h.connected, h.server⟩

theorem At.setServer (h : s.At line server) (server' : IpcServer 1) :
    (s.setServer server').At line server' := ⟨h.lines, h.connected, rfl⟩

/-- The first call has returned this reply to this payload. -/
def Returned (payload response : List UInt8) (s : IpcSystem 1) : Prop :=
  (s.lines 0).client = .returned response ∧ (s.lines 0).payload = payload

variable {payload response : List UInt8}

/-- A handler that knows one request. -/
def Answers (payload response body answer : List UInt8) : Prop := body = payload ∧ answer = response

/-- The client reads a reply that has come down whole. -/
theorem reaches_read (hne : response ≠ []) (hlen : response.length ≤ 65534) (h : s.At line server)
    (hphase : line.client = .readHeader []) (hpayload : line.payload = payload)
    (hdown : line.down = beBytes 2 response.length ++ response) :
    Reaches step (Regular (Answers payload response)) (Returned payload response) s := by
  have hpos : 0 < response.length := List.length_pos_of_ne_nil hne
  have htake : line.down.take 2 = beBytes 2 response.length := by
    rw [hdown, List.take_left' (length_beBytes ..)]
  have hdrop : line.down.drop 2 = response := by
    rw [hdown, List.drop_left' (length_beBytes ..)]
  have hlen' : line.down.length = 2 + response.length := by
    rw [hdown, List.length_append, length_beBytes]
  have hnat : beNat (beBytes 2 response.length) = response.length := beNat_beBytes (by omega)
  have hheader : line.read 2 =
      some { line with client := .readBody response.length [], down := response } := by
    have hmax : ¬ IpcClient.maxBody < response.length := by
      rw [IpcClient.maxBody]
      omega
    rw [IpcLine.read, if_neg (by omega), hphase, htake, hdrop]
    simp [IpcClient.Phase.read, IpcClient.Phase.afterLength, length_beBytes, hnat, hmax, hpos.ne']
  have hbody : { line with client := .readBody response.length [], down := response }.read
      response.length = some { line with client := .returned response, down := [] } := by
    simp [IpcLine.read, IpcClient.Phase.read, hpos.ne']
  refine .after (.read 0 2) trivial (by rw [step, h.lines, hheader]; rfl) ?_
  have h' := h.setLine { line with client := .readBody response.length [], down := response }
  refine .after (.read 0 response.length) trivial (by rw [step, h'.lines, hbody]; rfl) ?_
  refine .here ?_
  rw [Returned, (h'.setLine _).lines]
  exact ⟨rfl, hpayload⟩

/-- serverd sends a reply from its ring. -/
theorem reaches_flush {conn : IpcReactor.Conn} (hne : response ≠ [])
    (hlen : response.length ≤ 65534) (h : s.At line server)
    (hphase : line.client = .readHeader []) (hpayload : line.payload = payload)
    (hdown : line.down = []) (hfind : server.conns.find 9 = some (0, conn))
    (hcontent : conn.txRing.content = beBytes 2 response.length ++ response) :
    Reaches step (Regular (Answers payload response)) (Returned payload response) s := by
  have hsome : conn.txRing.readable ≠ 0 := by
    rw [← conn.valid.length_content, hcontent, List.length_append, length_beBytes]
    omega
  have hclosed := IpcReactor.Conn.flush_all (Nat.le_refl conn.txRing.readable)
  have hsent := IpcReactor.Conn.flush_complete (by simp [List.mem_replicate]) hclosed
  rw [hcontent] at hsent
  refine .after (.flush 9 (List.replicate conn.txRing.readable (.sent ipcMaxTxBufferSize)))
    trivial (by rw [step, flush, h.server, hfind]; exact if_neg hsome) ?_
  refine reaches_read hne hlen ((h.setLine _).setServer _) ?_ ?_ ?_
  · rw [h.lines]
    exact hphase
  · rw [h.lines]
    exact hpayload
  · rw [h.lines, hdown, hsent]
    rfl

/-- A worker takes the request and answers, and the reactor places the reply. -/
theorem reaches_answer {msg : IpcMessage} (hne : response ≠ []) (hlen : response.length ≤ 65534)
    (h : s.At line server) (hphase : line.client = .readHeader []) (hpayload : line.payload = payload)
    (hdown : line.down = []) (hfind : server.conns.find 9 = some (0, .new))
    (hq : server.rxQueue 0 = [⟨msg, 0⟩]) (hhand : server.inHand 0 = none)
    (htx : server.txQueue = []) (hfd : msg.fd = 9) (hbody : msg.body = payload) :
    Reaches step (Regular (Answers payload response)) (Returned payload response) s := by
  let taken : IpcServer 1 := { server with
    rxQueue := Function.update server.rxQueue 0 []
    inHand := Function.update server.inHand 0 (some ⟨msg, 0⟩) }
  let reply : IpcServer.Reply := ⟨⟨msg, 0⟩, response⟩
  let answered : IpcServer 1 := { taken with
    inHand := Function.update taken.inHand 0 none, txQueue := [reply] }
  have htaken : taken.inHand 0 = some ⟨msg, 0⟩ := Function.update_self 0 _ server.inHand
  have hdequeue : server.dequeue 0 = some taken := by
    simp only [IpcServer.dequeue, hq, hhand]
    rfl
  have hanswer : taken.answer 0 response true = some answered := by
    simp only [IpcServer.answer, htaken, if_true, show taken.txQueue = [] from htx]
    rfl
  have hbytes : reply.msg.payload = beBytes 2 response.length ++ response :=
    IpcReactor.ofBody_payload (show response.length ≤ 65535 by omega)
  have hfits : reply.msg.payload.length ≤ ipcMaxTxBufferSize := by
    rw [hbytes, List.length_append, length_beBytes, ipcMaxTxBufferSize]
    omega
  obtain ⟨conn, hconn, hcontent⟩ := IpcReactor.Conn.exists_place_new hfits
  rw [hbytes] at hcontent
  have hfind' : answered.conns.find reply.msg.fd = some (0, .new) := by
    rw [← hfind, ← hfd]
    rfl
  have hplace := IpcServer.place_of_find (show answered.txQueue = [reply] from rfl) hfind' hconn
  refine .after (.dequeue 0) trivial (by rw [step, h.server, hdequeue]; rfl) ?_
  have h₁ := h.setServer taken
  refine .after (.answer 0 response true) ?_ (by rw [step, h₁.server, hanswer]; rfl) ?_
  · intro request hmem
    rw [h₁.server, htaken] at hmem
    cases hmem
    exact ⟨hbody, rfl⟩
  have h₂ := h₁.setServer answered
  refine .after .place trivial (by rw [step, h₂.server, hplace]; rfl) ?_
  refine reaches_flush hne hlen (h₂.setServer _) hphase hpayload hdown ?_ hcontent
  rw [← hfd]
  exact Map.find_insert_same ..

/-- serverd accepts its first connection and hands the request on it to the worker. -/
theorem exists_received {msg : IpcMessage} (hfd : msg.fd = 9) :
    ∃ accepted server : IpcServer 1, (IpcServer.init 1).acceptConnection 9 = some accepted ∧
      accepted.conns.find 9 = some (0, .new) ∧ accepted.receive 9 msg.payload true = some server ∧
      server.conns = accepted.conns ∧ server.rxQueue 0 = [⟨msg, 0⟩] ∧ server.inHand 0 = none ∧
      server.txQueue = [] := by
  let accepted : IpcServer 1 :=
    { IpcServer.init 1 with conns := Map.empty.emplace 9 (0, .new), accepted := 1 }
  have hfind : accepted.conns.find 9 = some (0, .new) := by
    change (Map.empty.emplace 9 (0, IpcReactor.Conn.new)).find 9 = some (0, .new)
    rw [Map.emplace_of_find_none (Map.find_empty 9), Map.find_insert_same]
  have hmake : IpcMessage.make 9 msg.payload = .ok msg := IpcMessage.make_eq_ok.mpr ⟨hfd, rfl⟩
  let received : IpcServer 1 := { accepted with
    rr := 1
    received := [⟨msg, 0⟩]
    rxQueue := Function.update accepted.rxQueue 0 [⟨msg, 0⟩] }
  have hreceive : accepted.receive 9 msg.payload true = some received := by
    simp only [IpcServer.receive, hfind, hmake]
    rfl
  exact ⟨accepted, received, rfl, hfind, hreceive, rfl,
    Function.update_self 0 _ accepted.rxQueue, rfl, rfl⟩

/-- A call with a payload that fits the ring can be served, and returns. -/
theorem call_served (hp : payload ≠ []) (hlen : payload.length ≤ 65534) (hne : response ≠ [])
    (hlen' : response.length ≤ 65534) :
    Reaches step (Regular (Answers payload response)) (Returned payload response) (init 1) := by
  obtain ⟨started, writing, waiting, hconnect, hheader, hbody, hpayload, hclient, hdown, hup, hring⟩ :=
    IpcLine.exists_waiting hp (show payload.length ≤ 65535 by omega)
  have hsending : waiting.Sending :=
    ((IpcLine.sending_connect hconnect).client (IpcLine.clientStep_write hheader)).client
      (IpcLine.clientStep_write hbody)
  have hroom : waiting.request.length ≤ waiting.rxRing.writeLen := by
    rw [IpcLine.request, hring, ByteRingBuffer.writeLen_new, List.length_append, length_beBytes,
      hpayload, ipcMaxRxBufferSize]
    omega
  obtain ⟨msg, line, hrecv, hfd, hmsg, hpayload', hclient', hdown'⟩ :=
    IpcLine.recv_request 9 hsending (hring ▸ ByteRingBuffer.content_new _) hup (by rw [hpayload]; omega) hroom
  obtain ⟨accepted, server, haccept, hfind, hreceive, hconns, hq, hhand, htx⟩ := exists_received hfd
  obtain ⟨s₀, hstep₀, h₀⟩ :
      ∃ s₀, step (init 1) (.connect payload) = some s₀ ∧ s₀.At started (.init 1) := by
    rw [step, connect, hconnect]
    exact ⟨_, rfl, lines_setLine (init 1) 0 0 started, rfl, rfl⟩
  refine .after (.connect payload) (show payload.length ≤ 65535 by omega) hstep₀ ?_
  refine .after (.write 0 2) trivial (by rw [step, h₀.lines, hheader]; rfl) ?_
  have h₁ := h₀.setLine writing
  refine .after (.write 0 payload.length) trivial (by rw [step, h₁.lines, hbody]; rfl) ?_
  have h₂ := h₁.setLine waiting
  refine .after (.accept 9) ?_
    (by rw [step, acceptConnection, h₂.server, h₂.connected, haccept]; exact if_pos Nat.zero_lt_one) ?_
  · intro request hmem
    rw [h₂.server] at hmem
    have htokens := IpcServer.mem_tokens_of_flight hmem
    rw [IpcServer.tokens_init] at htokens
    exact absurd htokens (Multiset.notMem_zero _)
  have h₃ := h₂.setServer accepted
  have hdeliver : deliver accepted 9 [msg] [] = some server := by
    rw [deliver, List.headD_nil, hreceive]
    rfl
  refine .after (.recv 9 waiting.request.length []) trivial
    (by simp only [step, recv, h₃.server, hfind, h₃.lines, hrecv, hdeliver]; rfl) ?_
  refine reaches_answer hne hlen' ((h₃.setLine line).setServer server) (hclient'.trans hclient)
    (hpayload'.trans hpayload) (hdown'.trans hdown) (hconns ▸ hfind) hq hhand htx hfd ?_
  rw [IpcMessage.body_eq_drop, hmsg, IpcLine.request, ipcHeaderSize,
    List.drop_left' (length_beBytes ..), hpayload]

end Served

/-! ## Replies -/

/-- However the clients, the reactor and the workers interleave, and in whatever pieces the bytes
    travel: a call of `IpcClient::send` with at most 65535 bytes that returns has returned what the
    command handler of serverd has answered to this very payload. -/
theorem call_returns_own_answer [NeZero n] {acts : List (Act n)}
    (hok : Along step (Regular handler) (init n) acts) (hrun : run step (init n) acts = some s)
    {i : ℕ} {reply : List UInt8} (hreturned : (s.lines i).client = .returned reply) :
    ∃ request ∈ s.server.received, request.inc = i ∧ request.msg.body = (s.lines i).payload ∧
      (i, ⟨request, reply⟩) ∈ s.server.written ∧ handler (s.lines i).payload reply := by
  have h : s.Inv handler := run_induct (fun _ _ _ h hok hstep => h.step hok hstep) inv_init hok hrun
  have hheard := (h.lines i).heard _ (by rw [hreturned]; rfl)
  have hne : s.server.placedOn i ≠ [] := by
    intro hnil
    rw [hnil, List.prefix_nil] at hheard
    cases hheard
  obtain ⟨⟨j, placed⟩, hmem, hplaced⟩ : ∃ placed ∈ s.server.written,
      (if placed.1 = i then placed.2.msg.payload else []) ≠ [] := by
    by_contra hnone
    push Not at hnone
    exact hne (List.flatMap_eq_nil_iff.mpr hnone)
  obtain rfl : j = i := by
    by_contra hj
    exact hplaced (if_neg hj)
  obtain ⟨hinc, hhandler, hlen⟩ := h.server.placed j placed hmem
  rw [h.server.placedOn_eq hmem] at hheard
  have hpayload : placed.msg.payload = beBytes 2 placed.response.length ++ placed.response :=
    IpcReactor.ofBody_payload (by omega)
  rw [hpayload] at hheard
  obtain rfl := reply_eq_of_heard hlen hheard
  have hreceived := h.server.known _ (IpcServer.mem_tokens_of_written hmem)
  obtain ⟨-, hrequest⟩ := (h.lines j).sent _ hreceived hinc
  have hbody : placed.request.msg.body = (s.lines j).payload := by
    rw [IpcMessage.body_eq_drop, hrequest]
    exact List.drop_left' (length_beBytes ..)
  exact ⟨placed.request, hreceived, hinc, hbody, hmem, hbody ▸ hhandler⟩

/-- A command handler that answers with the next numbers. -/
def Counts (body response : List UInt8) : Prop := response = body.map (· + 1)

instance (body response : List UInt8) : Decidable (Counts body response) :=
  inferInstanceAs (Decidable (response = body.map (· + 1)))

/-- Two clients at the same time, answered in the other order and in pieces, and a third one that
    gets the number of the first. -/
def threeCallsActs : List (Act 4) :=
  [.connect [1], .connect [3], .write 0 2, .write 1 2, .write 0 1, .write 1 1, .accept 9, .accept 10,
    .recv 10 3 [], .recv 9 3 [], .dequeue 0, .dequeue 1, .answer 1 [2] true, .answer 0 [4] true,
    .place, .place, .flush 10 [.sent 1], .flush 9 [.sent 3],
    .connect [5], .write 2 2, .write 2 1, .accept 9, .recv 9 3 [], .dequeue 2, .answer 2 [6] true, .place,
    .flush 9 [.sent 3], .flush 10 [.sent 2], .read 2 2, .read 2 1, .read 0 2, .read 1 2, .read 1 1,
    .read 0 1]

theorem own_answer_served : ∃ s, run step (init 4) threeCallsActs = some s ∧
    (s.lines 0).client = .returned [2] ∧ (s.lines 1).client = .returned [4] ∧
      (s.lines 2).client = .returned [6] ∧ ∃ request ∈ s.server.received, request.inc = 2 ∧
        request.msg.body = (s.lines 2).payload ∧ (2, ⟨request, [6]⟩) ∈ s.server.written ∧
        Counts (s.lines 2).payload [6] := by
  have hseen : (run step (init 4) threeCallsActs).map
      (fun s => ((s.lines 0).client, (s.lines 1).client, (s.lines 2).client)) =
        some (.returned [2], .returned [4], .returned [6]) := by decide +kernel
  have hok : Along step (Regular Counts) (init 4) threeCallsActs := by decide +kernel
  obtain ⟨s, hrun, hclients⟩ := Option.map_eq_some_iff.mp hseen
  simp only [Prod.mk.injEq] at hclients
  obtain ⟨hfirst, hsecond, hthird⟩ := hclients
  exact ⟨s, hrun, hfirst, hsecond, hthird, call_returns_own_answer hok hrun hthird⟩

end IpcSystem

end NfEngine
