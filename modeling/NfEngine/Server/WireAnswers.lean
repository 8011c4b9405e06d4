-- SUMMARY: The bytes that the server sends are whole responses to distinct requests among the bytes that it has read.
import NfEngine.Server.WireSteps

/-!
# Bytes answer bytes

The receive ring of an object holds the unfinished frame of what was read, and its
transmit ring or queue what is not sent yet of the responses placed on it. From this and
from the provenance of responses in the exchange it follows that what leaves the server
answers what came in, down to the bytes and in whatever pieces they were read and written.
-/

namespace NfEngine

open Lib Lib.Framing Lib.Transition Lib.Provenance

namespace Server

variable {cfg : ServerConfig}

/-! ## What the objects of a connection hold -/

namespace Wire

/-- The ring holds the rest of what was read, and the frames that have arrived at the workers are
    among those of what was read, in their order. -/
structure RxOk (hdr : FrameHeader) (capacity : ℕ) (rxRing : ByteRingBuffer) (read : List UInt8)
    (arrived : List (List UInt8)) : Prop where
  valid : rxRing.Valid
  capacity : rxRing.buffer.length = capacity
  content : rxRing.content = hdr.format.rest read
  arrived : arrived.Sublist (hdr.format.frames read)

theorem rxOk_new (hdr : FrameHeader) {capacity : ℕ} (hpos : 0 < capacity) :
    RxOk hdr capacity (.new capacity) [] [] where
  valid := ByteRingBuffer.valid_new hpos
  capacity := ByteRingBuffer.length_buffer_new _
  content := by
    rw [ByteRingBuffer.content_new, Format.rest_of_complete_eq_none Format.complete_nil]
  arrived := List.nil_sublist _

theorem kept_sublist (enqueued : List Bool) (frames : List (List UInt8)) :
    (kept enqueued frames).Sublist frames := by
  induction frames generalizing enqueued with
  | nil => exact .slnil
  | cons frame frames ih =>
    unfold kept
    split
    · exact (ih _).cons_cons frame
    · exact (ih _).cons frame

/-- A round of a receive loop never closes the connection, and goes on with the frames. -/
theorem RxOk.take {hdr : FrameHeader} {capacity : ℕ} {rxRing : ByteRingBuffer} {read data : List UInt8}
    {arrived : List (List UInt8)} (h : RxOk hdr capacity rxRing read arrived)
    (hdata : data.length ≤ rxRing.writeLen) :
    ∃ frames rxRing', (reader hdr).take rxRing data = (frames, .open rxRing') ∧
      ∀ enqueued, RxOk hdr capacity rxRing' (read ++ data) (arrived ++ kept enqueued frames) := by
  have haccepts : (reader hdr).Accepts := fun f _ => ⟨f, rfl⟩
  have hcuts := FrameReader.take_cuts haccepts h.valid h.capacity hdata
  obtain ⟨rxRing', hopen, hvalid, hcap, hcontent⟩ := hcuts.ring
  have hframes := FrameReader.msgs_eq_map (f := id) (fun _ => rfl) hcuts.msgs
  rw [List.map_id] at hframes
  refine ⟨_, rxRing', Prod.ext hframes hopen, fun enqueued => ⟨hvalid, hcap, ?_, ?_⟩⟩
  · rw [hcontent, h.content]
    exact (Format.rest_append _ _).symm
  · rw [Format.frames_append, ← h.content]
    exact h.arrived.append (kept_sublist _ _)

structure TcpOk (line : TcpLine) (arrived placed : List (List UInt8)) : Prop where
  rx : RxOk tcpHeader tcpMaxRxBufferSize line.conn.rxRing line.read arrived
  balanced : line.tx.Balanced
  fitted : line.tx.fitted = placed

theorem tcpOk_new (fd : Int) (peer : SockAddr) : TcpOk (.new fd peer) [] [] :=
  ⟨rxOk_new _ (by decide), TcpTxConn.balanced_new fd, rfl⟩

structure TlsOk (line : TlsLine) (arrived placed : List (List UInt8)) : Prop where
  rx : RxOk tlsHeader tlsMaxRxBufferSize line.tx.tls.rxRing line.read arrived
  bytes : ∃ queue, line.tx.Consistent queue
  pushed : line.tx.pushed = placed

theorem tlsOk_new (fd : Int) (serverAddr peerAddr : SockAddr) : TlsOk (.new fd serverAddr peerAddr) [] [] :=
  ⟨rxOk_new _ (by decide), ⟨[], TlsTxConn.consistent_new _⟩, rfl⟩

/-- Writing leaves what was pushed and what was read. -/
theorem writePacket_same {writes rest : List SslWrite} {conn conn' : TlsTxConn} {pkt : TxPacket}
    {ending : WriteEnd} (h : conn.writePacket writes pkt = some (ending, conn', rest)) :
    conn'.pushed = conn.pushed ∧ conn'.tls = conn.tls := by
  induction writes generalizing conn pkt with
  | nil =>
    simp only [TlsTxConn.writePacket] at h
    split at h <;> cases h
    exact ⟨rfl, rfl⟩
  | cons write writes ih =>
    unfold TlsTxConn.writePacket at h
    split at h
    next =>
      split at h
      next =>
        split at h
        next =>
          obtain ⟨hpushed, htls⟩ := ih h
          exact ⟨hpushed, htls⟩
        next => cases h
      all_goals
        cases h
        exact ⟨rfl, rfl⟩
    next =>
      cases h
      exact ⟨rfl, rfl⟩

theorem flushLoop_same {budget : ℕ} {conn conn' : TlsTxConn} {writes : List SslWrite} {ending : WriteEnd}
    (h : conn.flushLoop budget writes = some (ending, conn')) :
    conn'.pushed = conn.pushed ∧ conn'.tls = conn.tls := by
  induction budget generalizing conn writes with
  | zero =>
    cases h
    exact ⟨rfl, rfl⟩
  | succ budget ih =>
    unfold TlsTxConn.flushLoop at h
    split at h
    next =>
      cases h
      exact ⟨rfl, rfl⟩
    next pkt queue hqueue =>
      split at h
      next => cases h
      next conn₁ writes' hwrite =>
        obtain ⟨hpushed, htls⟩ := writePacket_same hwrite
        obtain ⟨hpushed', htls'⟩ := ih h
        exact ⟨hpushed'.trans hpushed, htls'.trans htls⟩
      all_goals
        rename_i hwrite
        cases h
        obtain ⟨hpushed, htls⟩ := writePacket_same hwrite
        exact ⟨hpushed, htls⟩

/-- What the reactors have in their objects, against what has arrived and what was placed at each
    endpoint. -/
structure Lines (n : Net) (tcp : ℕ → TcpLine) (tls : ℕ → TlsLine)
    (arrivals placed : List (Endpoint × List UInt8)) : Prop where
  once : n.Once
  fresh : ∀ p : Endpoint, p.Unmade n → p.of arrivals = [] ∧ p.of placed = []
  tcpOk : ∀ inc, TcpOk (tcp inc) (Endpoint.of (.tcp inc) arrivals) (Endpoint.of (.tcp inc) placed)
  tlsOk : ∀ inc, TlsOk (tls inc) (Endpoint.of (.tls inc) arrivals) (Endpoint.of (.tls inc) placed)
  held : ∀ fd inc, n.tlsConns.find fd = some inc → (tls inc).tx.Consistent (tls inc).tx.txQueue

theorem of_append (p q : Endpoint) (log : List (Endpoint × List UInt8)) (new : List (List UInt8)) :
    p.of (log ++ new.map (Prod.mk q)) = if p = q then p.of log ++ new else p.of log := by
  have hnew : p.of (new.map (Prod.mk q)) = if p = q then new else [] := by
    unfold Endpoint.of
    split
    next heq =>
      subst heq
      simp [List.filter_map, Function.comp_def]
    next hne => simp [List.filter_map, Function.comp_def, Ne.symm hne]
  rw [Endpoint.of, List.filter_append, List.map_append]
  change p.of log ++ p.of (new.map (Prod.mk q)) = _
  rw [hnew]
  split
  · rfl
  · exact List.append_nil _

/-- Of the objects of one kind, one changes along with what happens at its endpoint. -/
theorem ok_update {β : Type} {Ok : β → List (List UInt8) → List (List UInt8) → Prop}
    {endpoint : ℕ → Endpoint} (hinj : endpoint.Injective) {lines : ℕ → β}
    {arrivals placed : List (Endpoint × List UInt8)}
    (h : ∀ i, Ok (lines i) ((endpoint i).of arrivals) ((endpoint i).of placed))
    {inc : ℕ} {line : β} {arrived new : List (List UInt8)}
    (hline : Ok line ((endpoint inc).of arrivals ++ arrived) ((endpoint inc).of placed ++ new)) (i : ℕ) :
    Ok (Function.update lines inc line i)
      ((endpoint i).of (arrivals ++ arrived.map (Prod.mk (endpoint inc))))
      ((endpoint i).of (placed ++ new.map (Prod.mk (endpoint inc)))) := by
  rw [of_append, of_append]
  by_cases hi : i = inc
  · subst hi
    rw [Function.update_self, if_pos rfl, if_pos rfl]
    exact hline
  · have hne : endpoint i ≠ endpoint inc := fun heq => hi (hinj heq)
    rw [Function.update_of_ne hi, if_neg hne, if_neg hne]
    exact h i

namespace Lines

variable {n n' : Net} {tcp : ℕ → TcpLine} {tls : ℕ → TlsLine}
  {arrivals placed : List (Endpoint × List UInt8)} {fd : Int} {inc : ℕ}

/-- The connections change and the objects do not. -/
theorem follow (h : Lines n tcp tls arrivals placed) (hfollows : Follows n n')
    (hheld : ∀ fd inc, n'.tlsConns.find fd = some inc → n.tlsConns.find fd = some inc) :
    Lines n' tcp tls arrivals placed where
  once := hfollows.once
  fresh p hp := h.fresh p (hfollows.unmade hp)
  tcpOk := h.tcpOk
  tlsOk := h.tlsOk
  held fd inc hfind := h.held fd inc (hheld fd inc hfind)

/-- Something happens at an endpoint whose object is made. -/
theorem fresh_append (h : Lines n tcp tls arrivals placed) (hfollows : Follows n n') {q : Endpoint}
    {arrived new : List (List UInt8)} (hmade : q.Unmade n' → arrived = [] ∧ new = []) (p : Endpoint)
    (hp : p.Unmade n') :
    p.of (arrivals ++ arrived.map (Prod.mk q)) = [] ∧ p.of (placed ++ new.map (Prod.mk q)) = [] := by
  obtain ⟨harrived, hplaced⟩ := h.fresh p (hfollows.unmade hp)
  rw [of_append, of_append, harrived, hplaced]
  by_cases hq : p = q
  · subst hq
    obtain ⟨rfl, rfl⟩ := hmade hp
    simp
  · simp [hq]

theorem setTcp (h : Lines n tcp tls arrivals placed) (hfollows : Follows n n')
    (hheld : ∀ fd inc, n'.tlsConns.find fd = some inc → n.tlsConns.find fd = some inc)
    {line : TcpLine} (arrived fitted : List (List UInt8))
    (hmade : Endpoint.Unmade n' (.tcp inc) → arrived = [] ∧ fitted = [])
    (hline : TcpOk line (Endpoint.of (.tcp inc) arrivals ++ arrived)
      (Endpoint.of (.tcp inc) placed ++ fitted)) :
    Lines n' (Function.update tcp inc line) tls (arrivals ++ arrived.map (Prod.mk (.tcp inc)))
      (placed ++ fitted.map (Prod.mk (.tcp inc))) where
  once := hfollows.once
  fresh := h.fresh_append hfollows hmade
  tcpOk := ok_update (fun _ _ => Endpoint.tcp.inj) h.tcpOk hline
  tlsOk i := by
    rw [of_append, of_append, if_neg nofun, if_neg nofun]
    exact h.tlsOk i
  held fd i hfind := h.held fd i (hheld fd i hfind)

theorem setTls (h : Lines n tcp tls arrivals placed) (hfollows : Follows n n') {line : TlsLine}
    (arrived pushed : List (List UInt8))
    (hmade : Endpoint.Unmade n' (.tls inc) → arrived = [] ∧ pushed = [])
    (hline : TlsOk line (Endpoint.of (.tls inc) arrivals ++ arrived)
      (Endpoint.of (.tls inc) placed ++ pushed))
    (hheld : ∀ fd i, n'.tlsConns.find fd = some i →
      (i = inc → line.tx.Consistent line.tx.txQueue) ∧ (i ≠ inc → n.tlsConns.find fd = some i)) :
    Lines n' tcp (Function.update tls inc line) (arrivals ++ arrived.map (Prod.mk (.tls inc)))
      (placed ++ pushed.map (Prod.mk (.tls inc))) where
  once := hfollows.once
  fresh := h.fresh_append hfollows hmade
  tcpOk i := by
    rw [of_append, of_append, if_neg nofun, if_neg nofun]
    exact h.tcpOk i
  tlsOk := ok_update (fun _ _ => Endpoint.tls.inj) h.tlsOk hline
  held fd i hfind := by
    by_cases hi : i = inc
    · subst hi
      rw [Function.update_self]
      exact (hheld fd i hfind).1 rfl
    · rw [Function.update_of_ne hi]
      exact h.held fd i ((hheld fd i hfind).2 hi)

/-- An object changes, and nothing arrives or is placed. -/
theorem replaceTcp (h : Lines n tcp tls arrivals placed) (hfollows : Follows n n')
    (hheld : ∀ fd inc, n'.tlsConns.find fd = some inc → n.tlsConns.find fd = some inc)
    {line : TcpLine} (hline : TcpOk line (Endpoint.of (.tcp inc) arrivals) (Endpoint.of (.tcp inc) placed)) :
    Lines n' (Function.update tcp inc line) tls arrivals placed := by
  rw [← List.append_nil (Endpoint.of _ arrivals), ← List.append_nil (Endpoint.of _ placed)] at hline
  simpa using h.setTcp hfollows hheld [] [] (fun _ => ⟨rfl, rfl⟩) hline

theorem replaceTls (h : Lines n tcp tls arrivals placed) (hfollows : Follows n n') {line : TlsLine}
    (hline : TlsOk line (Endpoint.of (.tls inc) arrivals) (Endpoint.of (.tls inc) placed))
    (hheld : ∀ fd i, n'.tlsConns.find fd = some i →
      (i = inc → line.tx.Consistent line.tx.txQueue) ∧ (i ≠ inc → n.tlsConns.find fd = some i)) :
    Lines n' tcp (Function.update tls inc line) arrivals placed := by
  rw [← List.append_nil (Endpoint.of _ arrivals), ← List.append_nil (Endpoint.of _ placed)] at hline
  simpa using h.setTls hfollows [] [] (fun _ => ⟨rfl, rfl⟩) hline hheld

/-- A datagram comes from no connection. -/
theorem datagram (h : Lines n tcp tls arrivals placed) (payloads : List (List UInt8)) :
    Lines n tcp tls (arrivals ++ payloads.map (Prod.mk .udp)) placed where
  once := h.once
  fresh p hp := by
    rw [of_append, if_neg]
    · exact h.fresh p hp
    · rintro rfl
      exact hp
  tcpOk i := by
    rw [of_append, if_neg nofun]
    exact h.tcpOk i
  tlsOk i := by
    rw [of_append, if_neg nofun]
    exact h.tlsOk i
  held := h.held

theorem made_tcp (h : Lines n tcp tls arrivals placed) (hfind : n.tcpConns.find fd = some inc) :
    ¬ Endpoint.Unmade n (.tcp inc) := by
  have hold : n.Holds .tcp fd inc := hfind
  exact not_le.mpr (h.once.lt hold)

theorem made_tls (h : Lines n tcp tls arrivals placed) (hfind : n.tlsConns.find fd = some inc) :
    ¬ Endpoint.Unmade n (.tls inc) := by
  have hold : n.Holds .tls fd inc := hfind
  rintro (hle | ⟨fd', hold' | hold'⟩)
  · exact absurd (h.once.lt hold) (not_lt.mpr hle)
  · exact h.once.ne_of_ne hold hold' (.inl (by decide)) rfl
  · exact h.once.ne_of_ne hold hold' (.inl (by decide)) rfl

end Lines

/-! ## What a step does to an object -/

theorem TcpOk.offer {line : TcpLine} {arrived placed : List (List UInt8)} (h : TcpOk line arrived placed)
    (payload : List UInt8) :
    TcpOk { line with tx := (line.tx.offer payload).1 } arrived
      (placed ++ if (line.tx.offer payload).2 then [payload] else []) where
  rx := h.rx
  balanced := h.balanced.offer payload
  fitted := by
    change (line.tx.offer payload).1.fitted = _
    rw [TcpTxConn.fitted_offer, TcpTxConn.snd_offer, h.fitted]
    split
    next hfull => simp [hfull]
    next hroom => simp [hroom]

theorem TcpOk.flush {line : TcpLine} {arrived placed : List (List UInt8)} (h : TcpOk line arrived placed)
    {results : List SendResult} {result : FlushEnd × TcpTxConn} (hflush : line.tx.sendLoop results = result) :
    TcpOk { line with tx := result.2 } arrived placed := by
  have hsends := line.tx.sendLoop_sends results
  rw [hflush] at hsends
  refine ⟨h.rx, hsends.balanced h.balanced, ?_⟩
  change result.2.fitted = placed
  rw [TcpTxConn.fitted, hsends.offered]
  exact h.fitted

theorem TlsOk.push {line : TlsLine} {arrived placed : List (List UInt8)} (h : TlsOk line arrived placed)
    (hheld : line.tx.Consistent line.tx.txQueue) (packet : Packet) :
    TlsOk { line with tx := line.tx.push packet } arrived (placed ++ [packet.payload]) where
  rx := h.rx
  bytes := ⟨_, hheld.push packet⟩
  pushed := congrArg (· ++ [packet.payload]) h.pushed

theorem TlsOk.flush {line : TlsLine} {arrived placed : List (List UInt8)} (h : TlsOk line arrived placed)
    (hheld : line.tx.Consistent line.tx.txQueue) {budget : ℕ} {writes : List SslWrite} {ending : WriteEnd}
    {tx : TlsTxConn} (hflush : line.tx.flushLoop budget writes = some (ending, tx)) :
    TlsOk { line with tx := tx } arrived placed := by
  obtain ⟨hpushed, htls⟩ := flushLoop_same hflush
  obtain ⟨queue, hqueue, -⟩ := TlsTxConn.flushLoop_written hheld hflush
  refine ⟨?_, ⟨queue, hqueue⟩, hpushed.trans h.pushed⟩
  change RxOk _ _ tx.tls.rxRing line.read arrived
  rw [htls]
  exact h.rx

/-! ## The invariant -/

structure Inv (w : Wire cfg) : Prop where
  lines : Lines w.exchange.server.net w.tcp w.tls w.arrivals w.placed
  traced : w.exchange.Traced
  arrived : w.arrivals.map Prod.snd = w.exchange.received.map Packet.payload
  sent : (w.placed.map Prod.snd : List (List UInt8)) + w.exchange.server.queued ≤ w.exchange.outbox

theorem inv_init : (init cfg).Inv where
  lines :=
    { once := Net.once_init
      fresh := fun _ _ => ⟨rfl, rfl⟩
      tcpOk := fun _ => tcpOk_new _ _
      tlsOk := fun _ => tlsOk_new _ _ _
      held := fun _ _ hfind => by cases hfind }
  traced := Exchange.traced_init
  arrived := rfl
  sent := by
    simp [init, Exchange.init, Server.init, Server.queued, Exchange.outbox]

variable {w w' : Wire cfg}

theorem netMoves_of_exchange {e e' : Exchange cfg} {a : Server.Act cfg} (hstep : e.step a = some e') :
    NetMoves e.server.net a e'.server.net := by
  obtain ⟨s, hs, rfl⟩ := Option.map_eq_some_iff.mp hstep
  rw [Exchange.server_observe]
  exact netMoves_of_step hs

/-- A step of the exchange that neither receives nor places, with the objects changed before. -/
theorem Inv.lift (h : w.Inv) (a : Server.Act cfg) (ha : a.isQuiet = true)
    (tcp : ℕ → TcpLine) (tls : ℕ → TlsLine)
    (hstep : ({ w with tcp := tcp, tls := tls } : Wire cfg).lift a = some w')
    (hlines : ∀ n', NetMoves w.exchange.server.net a n' → Lines n' tcp tls w.arrivals w.placed) :
    w'.Inv := by
  obtain ⟨e, he, rfl⟩ := Option.map_eq_some_iff.mp hstep
  have hquiet := Exchange.quiet_of_step ha he
  obtain ⟨new, hqueued, hout⟩ := hquiet.queued
  refine ⟨hlines _ (netMoves_of_exchange he), h.traced.step he, ?_, ?_⟩
  · exact h.arrived.trans (congrArg _ hquiet.received.symm)
  · rw [hout]
    calc _ ≤ _ := add_le_add le_rfl hqueued
      _ = _ := (add_assoc _ _ _).symm
      _ ≤ _ := add_le_add h.sent le_rfl

/-- Frames or datagrams arrive. -/
theorem Inv.receive (h : w.Inv) {p : Endpoint} {act : List UInt8 → Server.Act cfg}
    {payloads : List (List UInt8)} (tcp : ℕ → TcpLine) (tls : ℕ → TlsLine)
    (hstep : ({ w with tcp := tcp, tls := tls } : Wire cfg).receive p act payloads [] = some w')
    (hact : ∀ payload, Exchange.Brings payload (act payload))
    (hlines : Lines w.exchange.server.net tcp tls (w.arrivals ++ payloads.map (Prod.mk p)) w.placed) :
    w'.Inv := by
  obtain ⟨e, he, rfl⟩ := Option.map_eq_some_iff.mp hstep
  rw [List.append_nil] at he
  have harrived := Exchange.arrived_of_run hact he
  refine ⟨?_, Exchange.traced_run h.traced he, ?_, ?_⟩
  · change Lines e.server.net tcp tls (w.arrivals ++ payloads.map (Prod.mk p)) w.placed
    rw [harrived.net]
    exact hlines
  · change (w.arrivals ++ payloads.map (Prod.mk p)).map Prod.snd = e.received.map Packet.payload
    rw [harrived.received, List.map_append, h.arrived, List.map_map]
    exact congrArg _ (List.map_id payloads)
  · change _ + e.server.queued ≤ e.outbox
    rw [harrived.queued, harrived.outbox]
    exact h.sent

theorem place_nil (w : Wire cfg) (p : Endpoint) : w.place p [] = w := by
  rw [place, List.map_nil, List.append_nil]

/-- A packet leaves its transmit queue, for a connection or for none. -/
theorem Inv.place (h : w.Inv) (a : Server.Act cfg) {payload : List UInt8}
    (hdeparted : ∀ e, w.exchange.step a = some e → w.exchange.Departed payload e)
    (tcp : ℕ → TcpLine) (tls : ℕ → TlsLine) (p : Endpoint) {new : List (List UInt8)}
    (hnew : new.Sublist [payload])
    (hstep : (({ w with tcp := tcp, tls := tls } : Wire cfg).place p new).lift a = some w')
    (hlines : ∀ n', NetMoves w.exchange.server.net a n' →
      Lines n' tcp tls w.arrivals (w.placed ++ new.map (Prod.mk p))) : w'.Inv := by
  obtain ⟨e, he, rfl⟩ := Option.map_eq_some_iff.mp hstep
  have hdep := hdeparted e he
  refine ⟨hlines _ (netMoves_of_exchange he), h.traced.step he, ?_, ?_⟩
  · exact h.arrived.trans (congrArg _ hdep.received.symm)
  · have hsnd : (w.placed ++ new.map (Prod.mk p)).map Prod.snd = w.placed.map Prod.snd ++ new := by
      rw [List.map_append, List.map_map]
      exact congrArg _ (List.map_id new)
    have hle : (new : Multiset (List UInt8)) ≤ {payload} := hnew.subperm
    have hsent := h.sent
    change ((w.placed ++ new.map (Prod.mk p)).map Prod.snd : List (List UInt8)) + e.server.queued ≤ e.outbox
    rw [hsnd, hdep.outbox, ← Multiset.coe_add]
    rw [hdep.queued, ← Multiset.singleton_add] at hsent
    calc _ ≤ _ := add_le_add (add_le_add le_rfl hle) le_rfl
      _ = _ := add_assoc _ _ _
      _ ≤ _ := hsent

theorem Inv.accept (h : w.Inv) {fd : Int} {peer : SockAddr}
    (hstep : (w.setTcp w.exchange.server.net.accepted (.new fd peer)).lift (.accept fd) = some w') :
    w'.Inv := by
  refine h.lift (.accept fd) rfl _ w.tls hstep fun n' hmoves => ?_
  obtain ⟨harrived, hplaced⟩ := h.lines.fresh (.tcp w.exchange.server.net.accepted) le_rfl
  refine h.lines.replaceTcp (hmoves.follows h.lines.once)
    (fun _ _ hfind => (hmoves.tls hfind).resolve_right nofun) ?_
  rw [harrived, hplaced]
  exact tcpOk_new fd peer

theorem Inv.processHandover (h : w.Inv) {sslNew : Bool} (hstep : w.processHandover sslNew = some w') :
    w'.Inv := by
  unfold Wire.processHandover at hstep
  split at hstep
  next => cases hstep
  next fd inc items hq =>
    split at hstep
    next =>
      refine h.lift (.processHandover true) rfl w.tcp _ hstep fun n' hmoves => ?_
      have hold : w.exchange.server.net.Holds .handover fd inc := by simp [Net.Holds, hq]
      obtain ⟨harrived, hplaced⟩ := h.lines.fresh (.tls inc) (.inr ⟨fd, .inr hold⟩)
      refine h.lines.replaceTls (hmoves.follows h.lines.once) ?_
        fun fd' i hfind => ⟨fun _ => TlsTxConn.consistent_new _, fun hne => ?_⟩
      · rw [harrived, hplaced]
        exact tlsOk_new _ _ _
      · rcases hmoves.tls hfind with hfind | ⟨-, hhead⟩
        · exact hfind
        · rw [hq, List.head?_cons] at hhead
          cases hhead
          exact absurd rfl hne
    next =>
      refine h.lift (.processHandover false) rfl w.tcp w.tls hstep fun n' hmoves => ?_
      exact h.lines.follow (hmoves.follows h.lines.once)
        fun _ _ hfind => (hmoves.tls hfind).resolve_right fun hnew => by cases hnew.1

theorem Inv.tcpRecv (h : w.Inv) {fd : Int} {data : List UInt8} {enqueued : List Bool}
    (hstep : w.tcpRecv fd data enqueued = some w') : w'.Inv := by
  unfold Wire.tcpRecv at hstep
  split at hstep
  next => cases hstep
  next inc hfind =>
    have hok := h.lines.tcpOk inc
    dsimp only at hstep
    split at hstep
    next hdata =>
      obtain ⟨frames, rxRing, htake, hrx⟩ := hok.rx.take hdata.2
      rw [htake] at hstep
      refine h.receive _ w.tls hstep (fun _ => rfl) ?_
      have hline : TcpOk ⟨{ (w.tcp inc).conn with rxRing := rxRing }, (w.tcp inc).tx, (w.tcp inc).read ++ data⟩
          (Endpoint.of (.tcp inc) w.arrivals ++ kept enqueued frames)
          (Endpoint.of (.tcp inc) w.placed ++ []) := by
        rw [List.append_nil]
        exact ⟨hrx enqueued, hok.balanced, hok.fitted⟩
      have hset := h.lines.setTcp ⟨h.lines.once, id⟩ (fun _ _ hfind => hfind) (kept enqueued frames) []
        (fun hunmade => absurd hunmade (h.lines.made_tcp hfind)) hline
      rwa [List.map_nil, List.append_nil] at hset
    next => cases hstep

theorem Inv.tlsRead (h : w.Inv) {fd : Int} {data : List UInt8} {enqueued : List Bool}
    (hstep : w.tlsRead fd data enqueued = some w') : w'.Inv := by
  unfold Wire.tlsRead at hstep
  split at hstep
  next => cases hstep
  next inc hfind =>
    have hok := h.lines.tlsOk inc
    have hheld := h.lines.held fd inc hfind
    dsimp only at hstep
    split at hstep
    next hdata =>
      obtain ⟨frames, rxRing, htake, hrx⟩ := hok.rx.take hdata.2
      rw [htake] at hstep
      refine h.receive w.tcp _ hstep (fun _ => rfl) ?_
      have hline : TlsOk ⟨{ (w.tls inc).tx with tls := { (w.tls inc).tx.tls with rxRing := rxRing } },
            (w.tls inc).read ++ data⟩
          (Endpoint.of (.tls inc) w.arrivals ++ kept enqueued frames)
          (Endpoint.of (.tls inc) w.placed ++ []) := by
        rw [List.append_nil]
        exact ⟨hrx enqueued, ⟨_, hheld.bytes, hheld.retries, hheld.pending⟩, hok.pushed⟩
      have hset := h.lines.setTls ⟨h.lines.once, id⟩ (kept enqueued frames) []
        (fun hunmade => absurd hunmade (h.lines.made_tls hfind)) hline
        fun _ _ hfind => ⟨fun _ => ⟨hheld.bytes, hheld.retries, hheld.pending⟩, fun _ => hfind⟩
      rwa [List.map_nil, List.append_nil] at hset
    next => cases hstep

theorem Inv.tcpPlace (h : w.Inv) (hstep : w.tcpPlace = some w') : w'.Inv := by
  unfold Wire.tcpPlace at hstep
  split at hstep
  next => cases hstep
  next item items hq =>
    have hdeparted : ∀ fits e, w.exchange.step (.tcpPlace fits) = some e →
        w.exchange.Departed item.packet.payload e := fun _ _ => Exchange.departed_tcpPlace hq
    split at hstep
    next =>
      refine h.place (.tcpPlace false) (hdeparted false) w.tcp w.tls .udp (List.nil_sublist _)
        (by rw [place_nil]; exact hstep) fun n' hmoves => ?_
      cases hmoves
      rw [List.map_nil, List.append_nil]
      exact h.lines
    next inc hfind =>
      have hline := (h.lines.tcpOk inc).offer item.packet.payload
      rw [← List.append_nil (Endpoint.of (.tcp inc) w.arrivals)] at hline
      have hset := h.lines.setTcp ⟨h.lines.once, id⟩ (fun _ _ hfind => hfind) [] _
        (fun hunmade => absurd hunmade (h.lines.made_tcp hfind)) hline
      rw [List.map_nil, List.append_nil] at hset
      refine h.place (.tcpPlace _) (hdeparted _) _ w.tls (.tcp inc) ?_ hstep fun n' hmoves => ?_
      · split
        · exact .refl _
        · exact List.nil_sublist _
      · cases hmoves
        exact hset

theorem Inv.tlsPlace (h : w.Inv) (hstep : w.tlsPlace = some w') : w'.Inv := by
  unfold Wire.tlsPlace at hstep
  split at hstep
  next => cases hstep
  next item items hq =>
    have hdeparted : ∀ e, w.exchange.step .tlsPlace = some e → w.exchange.Departed item.packet.payload e :=
      fun _ => Exchange.departed_tlsPlace hq
    split at hstep
    next =>
      refine h.place .tlsPlace hdeparted w.tcp w.tls .udp (List.nil_sublist _)
        (by rw [place_nil]; exact hstep) fun n' hmoves => ?_
      cases hmoves
      rw [List.map_nil, List.append_nil]
      exact h.lines
    next inc hfind =>
      have hheld := h.lines.held _ inc hfind
      have hline := (h.lines.tlsOk inc).push hheld item.packet
      rw [← List.append_nil (Endpoint.of (.tls inc) w.arrivals)] at hline
      have hset := h.lines.setTls ⟨h.lines.once, id⟩ [] _
        (fun hunmade => absurd hunmade (h.lines.made_tls hfind)) hline
        fun _ _ hfind => ⟨fun _ => hheld.push item.packet, fun _ => hfind⟩
      rw [List.map_nil, List.append_nil] at hset
      refine h.place .tlsPlace hdeparted w.tcp _ (.tls inc) (.refl _) hstep fun n' hmoves => ?_
      cases hmoves
      exact hset

/-- An object changes, and neither its connection nor the exchange does. -/
theorem Inv.setLines (h : w.Inv) {tcp : ℕ → TcpLine} {tls : ℕ → TlsLine}
    (hlines : Lines w.exchange.server.net tcp tls w.arrivals w.placed) :
    ({ w with tcp := tcp, tls := tls } : Wire cfg).Inv :=
  ⟨hlines, h.traced, h.arrived, h.sent⟩

theorem Inv.tcpFlush (h : w.Inv) {fd : Int} {results : List SendResult}
    (hstep : w.tcpFlush fd results = some w') : w'.Inv := by
  unfold Wire.tcpFlush at hstep
  split at hstep
  next => cases hstep
  next inc hfind =>
    have hlines : ∀ n' ending tx, (w.tcp inc).tx.sendLoop results = (ending, tx) →
        NetMoves w.exchange.server.net (.tcpClose fd : Server.Act cfg) n' →
        Lines n' (Function.update w.tcp inc { w.tcp inc with tx := tx }) w.tls w.arrivals w.placed := by
      intro n' ending tx hflush hmoves
      have hline := (h.lines.tcpOk inc).flush hflush
      exact h.lines.replaceTcp (hmoves.follows h.lines.once)
        (fun _ _ hfind => (hmoves.tls hfind).resolve_right nofun) hline
    dsimp only at hstep
    split at hstep
    next tx hflush =>
      exact h.lift (.tcpClose fd) rfl _ w.tls hstep fun n' hmoves => hlines n' _ tx hflush hmoves
    next ending tx _ hflush =>
      cases hstep
      exact h.setLines (hlines _ ending tx hflush (.same nofun))

theorem Inv.tlsFlush (h : w.Inv) {fd : Int} {writes : List SslWrite}
    (hstep : w.tlsFlush fd writes = some w') : w'.Inv := by
  unfold Wire.tlsFlush at hstep
  split at hstep
  next => cases hstep
  next inc hfind =>
    have hheld := h.lines.held fd inc hfind
    have hlines : ∀ n' ending tx, (w.tls inc).tx.flushLoop TlsTx.flushBudget writes = some (ending, tx) →
        Follows w.exchange.server.net n' →
        (∀ fd' i, n'.tlsConns.find fd' = some i → w.exchange.server.net.tlsConns.find fd' = some i) →
        (∀ fd', n'.tlsConns.find fd' = some inc → tx.Consistent tx.txQueue) →
        Lines n' w.tcp (Function.update w.tls inc { w.tls inc with tx := tx }) w.arrivals w.placed := by
      intro n' ending tx hflush hfollows hsub hstill
      have hline := (h.lines.tlsOk inc).flush hheld hflush
      exact h.lines.replaceTls hfollows hline
        fun fd' i hfind' => ⟨fun hi => hstill fd' (hi ▸ hfind'), fun _ => hsub fd' i hfind'⟩
    dsimp only at hstep
    split at hstep
    next => cases hstep
    next tx hflush =>
      refine h.lift (.tlsClose fd) rfl w.tcp _ hstep fun n' hmoves => ?_
      refine hlines n' _ tx hflush (hmoves.follows h.lines.once)
        (fun _ _ hfind' => (hmoves.tls hfind').resolve_right nofun) fun fd' hfind' => ?_
      -- a packet in progress is lost, and the reactor has forgotten the object
      cases hmoves with
      | same hne => exact absurd rfl (hne fd)
      | tlsClose =>
        obtain ⟨hne, hother⟩ := Map.find_erase_eq_some.mp hfind'
        have hold : w.exchange.server.net.Holds .tls fd inc := hfind
        have hold' : w.exchange.server.net.Holds .tls fd' inc := hother
        exact absurd rfl (h.lines.once.ne_of_ne hold hold' (.inr hne))
    next ending tx hend hflush =>
      cases hstep
      refine h.setLines (hlines _ ending tx hflush ⟨h.lines.once, id⟩ (fun _ _ => id) fun _ _ => ?_)
      obtain ⟨queue, hqueue, heq⟩ := TlsTxConn.flushLoop_written hheld hflush
      rwa [← heq hend]

theorem Inv.inside (h : w.Inv) (a : Server.Act cfg) (ha : a.isQuiet = true)
    (hhandover : ∀ sslNew, a ≠ .processHandover sslNew)
    (hstep : w.lift a = some w') : w'.Inv := by
  refine h.lift a ha w.tcp w.tls hstep fun n' hmoves => ?_
  exact h.lines.follow (hmoves.follows h.lines.once)
    fun _ _ hfind => (hmoves.tls hfind).resolve_right fun hnew => hhandover true hnew.1

theorem Inv.step (h : w.Inv) {a : Act cfg} (hstep : w.step a = some w') : w'.Inv := by
  cases a with
  | accept fd peer => exact h.accept hstep
  | processHandover sslNew => exact h.processHandover hstep
  | tcpRecv fd data enqueued => exact h.tcpRecv hstep
  | tlsRead fd data enqueued => exact h.tlsRead hstep
  | recvfrom src payload =>
    exact h.receive w.tcp w.tls hstep (fun _ => rfl) (h.lines.datagram [payload])
  | tcpPlace => exact h.tcpPlace hstep
  | tlsPlace => exact h.tlsPlace hstep
  | tcpFlush fd results => exact h.tcpFlush hstep
  | tlsFlush fd writes => exact h.tlsFlush hstep
  | inside a =>
    cases a with
    | accept | processHandover | tcpReceive | tlsReceive | udpReceive | tcpPlace | tlsPlace => cases hstep
    | handleEvent k db => exact h.inside (.handleEvent k db) rfl nofun hstep
    | tcpClose fd => exact h.inside (.tcpClose fd) rfl nofun hstep
    | tlsClose fd => exact h.inside (.tlsClose fd) rfl nofun hstep
    | handover fd enqueued => exact h.inside (.handover fd enqueued) rfl nofun hstep
    | route w drawn => exact h.inside (.route w drawn) rfl nofun hstep
    | dispatch w => exact h.inside (.dispatch w) rfl nofun hstep
    | snapshot k serverTs => exact h.inside (.snapshot k serverTs) rfl nofun hstep
    | update k => exact h.inside (.update k) rfl nofun hstep
    | send k enqueued => exact h.inside (.send k enqueued) rfl nofun hstep
    | udpFlush sent => exact h.inside (.udpFlush sent) rfl nofun hstep

/-! ## Bytes in and bytes out -/

theorem inv_of_run {acts : List (Act cfg)} (hrun : run step (init cfg) acts = some w) : w.Inv :=
  run_induct (fun _ _ _ h _ hstep => h.step hstep) inv_init (along_true _ acts) hrun

end Wire

end Server

end NfEngine
