-- SUMMARY: Pending output always has a wakeup: the registered interest of the TCP and TLS connections against what they still have to send.
import NfEngine.Protocol.TcpTransmit
import NfEngine.Protocol.TlsTransmit

/-!
# Pending output and its wakeup

Epoll is level-triggered: output that waits for the socket goes on when `EPOLLOUT` is
registered for its connection. The two reactors rewrite the interest in many places.
`processTxQueue` writes to several connections first and looks at them one by one
afterwards, so that the invariant is stated up to a list of descriptors that are still
to be flushed.
-/

namespace NfEngine

open Lib Lib.Transition

/-! ## TCP -/

namespace TcpTx

/-- `EPOLLOUT` is registered for a ring that holds bytes only, and for each of them that is
    not still to be flushed. -/
structure Awaits (todo : List Int) (fd : Int) (conn : TcpTxConn) (interest : Interest) : Prop where
  pending : interest.output = true → conn.txRing.content ≠ []
  output : fd ∉ todo → conn.txRing.content ≠ [] → interest.output = true

theorem Awaits.mono {todo todo' : List Int} {fd : Int} {conn : TcpTxConn} {interest : Interest}
    (h : Awaits todo fd conn interest) (hsub : fd ∈ todo → fd ∈ todo') :
    Awaits todo' fd conn interest :=
  ⟨h.pending, fun hnot => h.output fun hmem => hnot (hsub hmem)⟩

/-- The invariant, up to the descriptors of `todo`. -/
abbrev AllAwait (todo : List Int) (table : ConnTable TcpTxConn) : Prop :=
  table.Holds (Awaits todo) fun _ => True

theorem Flushes.sameOff {table table' : ConnTable TcpTxConn} {fd : Int} (h : Flushes table fd table') :
    table.SameOff table' fd := by
  cases h with
  | idle => exact fun _ _ => ⟨rfl, rfl⟩
  | drained => exact ConnTable.sameOff_set_mod table fd _ _
  | blocked => exact ConnTable.sameOff_set_mod table fd _ _
  | failed => exact (ConnTable.sameOff_set table fd _).trans (ConnTable.sameOff_closeConnection _ fd)

/-- A flush settles the interest of its connection. -/
theorem Flushes.at {todo todo' : List Int} {table table' : ConnTable TcpTxConn} {fd : Int}
    (hflush : Flushes table fd table') (h : table.At (Awaits todo) fd) :
    table'.At (Awaits todo') fd := by
  cases hflush with
  | idle hempty =>
    cases h with
    | absent hconn hepoll => exact .absent hconn hepoll
    | present hconn hepoll hawaits =>
      exact .present hconn hepoll ⟨hawaits.pending, fun _ hne => absurd (hempty _ hconn) hne⟩
  | drained hconn hsends =>
    refine h.set_mod hconn fun _ _ => ⟨nofun, fun _ hne => ?_⟩
    exact absurd (hsends.drained rfl) hne
  | blocked hconn hsends =>
    exact h.set_mod hconn fun _ _ => ⟨fun _ => hsends.blocked rfl, fun _ _ => rfl⟩
  | failed => exact ConnTable.at_closeConnection

theorem allAwait_flushTxBuffer {todo : List Int} {table : ConnTable TcpTxConn} {fd : Int}
    (h : AllAwait (fd :: todo) table) (results : List SendResult) :
    AllAwait todo (flushTxBuffer table fd results) := by
  have hflush := flushes_flushTxBuffer table fd results
  refine h.update hflush.sameOff ?_ (hflush.at (h.live fd)) fun _ _ => trivial
  intro fd' conn interest hne hawaits
  exact hawaits.mono fun hmem => (List.mem_cons.mp hmem).resolve_left hne

theorem allAwait_flushAll {order : List (Int × List SendResult)} {table : ConnTable TcpTxConn}
    (h : AllAwait (order.map (·.1)) table) : AllAwait [] (flushAll table order) := by
  induction order generalizing table with
  | nil => exact h
  | cons o order ih => exact ih (allAwait_flushTxBuffer h o.2)

/-- A packet that went into a ring makes its descriptor dirty. -/
theorem allAwait_offerPacket {s : TcpTx × List Int} (h : AllAwait s.2 s.1.table) (pkt : Packet) :
    AllAwait (offerPacket s pkt).2 (offerPacket s pkt).1.table := by
  unfold offerPacket
  cases hconn : s.1.table.conns.find pkt.fd with
  | none => exact h
  | some conn =>
    dsimp only
    rw [conn.snd_offer]
    refine h.update (ConnTable.sameOff_set s.1.table pkt.fd _) ?_ ((h.live pkt.fd).set hconn ?_)
      fun _ _ => trivial
    · intro fd' conn' interest _ hawaits
      refine hawaits.mono fun hmem => ?_
      split
      · exact List.mem_insert_of_mem hmem
      · exact hmem
    · intro interest hawaits
      refine ⟨fun hout => ?_, ?_⟩
      · have hne := hawaits.pending hout
        rw [conn.content_offer]
        split
        · exact hne
        · exact List.append_ne_nil_of_left_ne_nil hne _
      · rw [conn.content_offer]
        by_cases hfull : conn.txRing.writable < pkt.payload.length
        · rw [if_pos hfull, decide_eq_true hfull]
          exact hawaits.output
        · rw [if_neg hfull, decide_eq_false hfull]
          exact fun hnot => absurd List.mem_insert_self hnot

theorem allAwait_offerPackets {s : TcpTx × List Int} (h : AllAwait s.2 s.1.table)
    (packets : List Packet) :
    AllAwait (packets.foldl offerPacket s).2 (packets.foldl offerPacket s).1.table := by
  induction packets generalizing s with
  | nil => exact h
  | cons pkt packets ih => exact ih (allAwait_offerPacket h pkt)

theorem allAwait_step {s s' : TcpTx} {a : Act} (h : AllAwait [] s.table)
    (hstep : s.step a = some s') : AllAwait [] s'.table := by
  cases handles_of_step hstep with
  | accept hfree =>
    refine h.add hfree ⟨nofun, fun _ hne => ?_⟩
    exact absurd (ByteRingBuffer.content_new tcpMaxTxBufferSize) hne
  | @transmit packets order hperm =>
    have hoffered := allAwait_offerPackets (s := (s, [])) h packets
    refine allAwait_flushAll (hoffered.imp (fun fd conn interest hawaits => ?_) fun _ => id)
    exact hawaits.mono fun hmem => hperm.mem_iff.mpr hmem
  | flush fd results =>
    exact allAwait_flushTxBuffer (h.imp (fun _ _ _ hawaits => hawaits.mono nofun) fun _ => id) results
  | close fd => exact h.closeConnection fun _ _ _ => trivial

end TcpTx

/-! ## TLS -/

namespace TlsTx

/-- A connection with a finished handshake and packets to write has `EPOLLOUT`, unless it
    is still to be flushed. -/
def Awaits (todo : List Int) (fd : Int) (conn : TlsTxConn) (interest : Interest) : Prop :=
  fd ∉ todo → conn.finished = true → conn.txQueue ≠ [] → interest.output = true

/-- `EPOLLOUT` is registered, or a flush has nothing to do. -/
def Settled (conn : TlsTxConn) (interest : Interest) : Prop :=
  interest.output = true ∨ conn.finished = true ∧ conn.txQueue = []

theorem settled_interestOf (conn : TlsTxConn) : Settled conn (interestOf conn) := by
  unfold Settled interestOf
  split
  · exact .inl rfl
  next hfinished =>
    split
    · exact .inl rfl
    next hempty => exact .inr ⟨by simpa using hfinished, by simpa using hempty⟩

theorem Settled.awaits {conn : TlsTxConn} {interest : Interest} (h : Settled conn interest)
    (todo : List Int) (fd : Int) : Awaits todo fd conn interest := by
  intro _ _ hqueue
  rcases h with hout | ⟨_, hempty⟩
  · exact hout
  · exact absurd hempty hqueue

/-- The invariant, up to the descriptors of `todo`. -/
abbrev AllAwait (todo : List Int) (t : TlsTx) : Prop := t.Holds (Awaits todo) fun _ => True

/-- A flush never takes `EPOLLOUT` away. -/
theorem settled_flushLoop {budget : ℕ} {conn conn' : TlsTxConn} {writes : List SslWrite}
    {ending : WriteEnd} {interest : Interest} (h : Settled conn interest)
    (hflush : conn.flushLoop budget writes = some (ending, conn')) : Settled conn' interest := by
  rcases h with hout | ⟨hfinished, hempty⟩
  · exact .inl hout
  · -- the queue is empty: the loop returns at once
    have hsame : conn.flushLoop budget writes = some (.done, conn) := by
      cases budget with
      | zero => rfl
      | succ budget => simp only [TlsTxConn.flushLoop, hempty]
    obtain ⟨_, rfl⟩ := Prod.mk.inj (Option.some.inj (hsame.symm.trans hflush))
    exact .inr ⟨hfinished, hempty⟩

/-- The invariant everywhere, and more at one descriptor. -/
abbrev SettledAt (todo : List Int) (fd : Int) (t : TlsTx) : Prop :=
  t.Holds (fun fd' conn interest =>
    (fd' = fd → Settled conn interest) ∧ (fd' ≠ fd → Awaits todo fd' conn interest)) fun _ => True

theorem SettledAt.allAwait {todo : List Int} {fd : Int} {t : TlsTx} (h : SettledAt todo fd t) :
    AllAwait todo t := by
  refine h.imp (fun fd' conn interest hsettled => ?_) fun _ => id
  by_cases hfd : fd' = fd
  · exact (hsettled.1 hfd).awaits todo fd'
  · exact hsettled.2 hfd

theorem settledAt_updateInterest {todo : List Int} {t : TlsTx} {fd : Int}
    (h : AllAwait (fd :: todo) t) : SettledAt todo fd (updateInterest t fd) := by
  refine h.update (sameOff_updateInterest t fd) ?_ (at_updateInterest (h.live fd) ?_) fun _ _ => trivial
  · intro fd' conn interest hne hawaits
    refine ⟨fun heq => absurd heq hne, fun _ hnot => hawaits fun hmem => ?_⟩
    exact hnot ((List.mem_cons.mp hmem).resolve_left hne)
  · intro conn _ _
    exact ⟨fun _ => settled_interestOf conn, fun hne => absurd rfl hne⟩

theorem settledAt_flushTx {todo : List Int} {t t' : TlsTx} {fd : Int} {budget : ℕ}
    {writes : List SslWrite} (h : SettledAt todo fd t)
    (hflush : flushTx t fd budget writes = some t') : SettledAt todo fd t' := by
  refine holds_flushTx h hflush fun conn ending conn' interest hloop _ hsettled => ⟨?_, ?_, fun _ => trivial⟩
  · intro _
    exact ⟨fun _ => settled_flushLoop (hsettled.1 rfl) hloop, fun hne => absurd rfl hne⟩
  · intro _
    exact ⟨fun _ => .inl rfl, fun hne => absurd rfl hne⟩

/-- The second loop of `processTxQueue` settles one descriptor after the other. -/
theorem allAwait_flushAll {order : List (Int × List SslWrite)} {t t' : TlsTx}
    (h : AllAwait (order.map (·.1)) t) (hflush : flushAll order t = some t') : AllAwait [] t' := by
  induction order generalizing t with
  | nil =>
    cases hflush
    exact h
  | cons o order ih =>
    unfold flushAll at hflush
    split at hflush
    · cases hflush
    next hfirst => exact ih (settledAt_flushTx (settledAt_updateInterest h) hfirst).allAwait hflush

theorem allAwait_pushPackets {s : TlsTx × List Int} (h : AllAwait s.2 s.1) (packets : List Packet) :
    AllAwait (packets.foldl pushPacket s).2 (packets.foldl pushPacket s).1 := by
  induction packets generalizing s with
  | nil => exact h
  | cons pkt packets ih =>
    refine ih ?_
    unfold pushPacket
    cases hconn : s.1.conns.find pkt.fd with
    | none => exact h
    | some conn =>
      refine h.update (ConnTable.sameOff_set s.1 pkt.fd _) ?_ ((h.live pkt.fd).set hconn ?_)
        fun _ _ => trivial
      · intro fd' conn' interest _ hawaits hnot
        exact hawaits fun hmem => hnot (List.mem_insert_of_mem hmem)
      · intro interest _ hnot
        exact absurd List.mem_insert_self hnot

theorem allAwait_receive {reactor : TlsReactor} {t : TlsTx} (h : AllAwait [] t) (fd : Int)
    (reads : Reads) : AllAwait [] (receive reactor t fd reads) :=
  holds_receive h (fun _ _ _ => id) (fun _ _ _ _ _ _ => rfl) fun _ _ _ => trivial

theorem allAwait_driveHandshake {reactor : TlsReactor} {t : TlsTx} {fd : Int} {conn : TlsTxConn}
    (h : AllAwait [] t) (hconn : t.conns.find fd = some conn) (hopen : conn.finished = false)
    (reads : Reads) (drive : TlsHandshakeStep) :
    AllAwait [] (driveHandshake reactor t fd conn reads drive) := by
  cases drive with
  | done =>
    have hweak : AllAwait [fd] (t.set fd { conn with finished := true }) := by
      refine h.update (ConnTable.sameOff_set t fd _) ?_ ((h.live fd).set hconn ?_) fun _ _ => trivial
      · exact fun _ _ _ _ hawaits _ => hawaits List.not_mem_nil
      · exact fun _ _ hnot => absurd List.mem_cons_self hnot
    exact allAwait_receive (settledAt_updateInterest hweak).allAwait fd reads
  | wantRead =>
    refine h.mod fun conn' _ hfind _ _ hfinished => ?_
    -- the handshake is not finished: nothing is demanded
    obtain rfl := Option.some.inj (hconn.symm.trans hfind)
    exact absurd (hopen.symm.trans hfinished) nofun
  | wantWrite => exact h.mod fun _ _ _ _ _ _ _ => rfl
  | fail => exact h.closeConnection fun _ _ _ => trivial

theorem allAwait_step {reactor : TlsReactor} {t t' : TlsTx} {a : Act} (h : AllAwait [] t)
    (hstep : step reactor t a = some t') : AllAwait [] t' := by
  cases handles_of_step hstep with
  | idle => exact h
  | handover hfree => exact h.add hfree fun _ => nofun
  | @transmit packets order _ hperm hflush =>
    have hpushed := allAwait_pushPackets (s := (t, [])) h packets
    refine allAwait_flushAll (hpushed.imp (fun fd conn interest hawaits hnot => ?_) fun _ => id) hflush
    exact hawaits fun hmem => hnot (hperm.mem_iff.mpr hmem)
  | drive hconn hopen reads drive => exact allAwait_driveHandshake h hconn hopen reads drive
  | receive fd reads => exact allAwait_receive h fd reads
  | @flush fd _ t'' hflush =>
    -- whatever the flush leaves behind, `updateInterest` settles it
    have hflushed : AllAwait [fd] t'' := by
      refine holds_flushTx (h.imp (fun _ _ _ hawaits _ => hawaits List.not_mem_nil) fun _ => id)
        hflush fun _ _ _ _ _ _ _ => ⟨?_, ?_, fun _ => trivial⟩
      · exact fun _ hnot => absurd List.mem_cons_self hnot
      · exact fun _ hnot => absurd List.mem_cons_self hnot
    exact (settledAt_updateInterest hflushed).allAwait
  | close fd => exact h.closeConnection fun _ _ _ => trivial

end TlsTx

/-- Between any two handlers, a TCP connection has `EPOLLOUT` registered exactly when its
    ring holds bytes, and a TLS connection that has finished its handshake has it whenever
    packets wait in its queue. -/
theorem output_registered :
    (∀ (as : List TcpTx.Act) (s : TcpTx), run TcpTx.step TcpTx.init as = some s →
      ∀ fd conn, s.table.conns.find fd = some conn → ∃ interest,
        s.table.epoll.find fd = some interest ∧
          (interest.output = true ↔ conn.txRing.readable ≠ 0)) ∧
    (∀ (reactor : TlsReactor) (as : List TlsTx.Act) (t : TlsTx),
      run (TlsTx.step reactor) .empty as = some t →
      ∀ fd conn, t.conns.find fd = some conn → ∃ interest,
        t.epoll.find fd = some interest ∧
          (conn.finished = true → conn.txQueue ≠ [] → interest.output = true)) := by
  constructor
  · intro as s hrun fd conn hconn
    have hall : TcpTx.AllAwait [] s.table := run_induct (I := fun s => TcpTx.AllAwait [] s.table)
      (fun _ _ _ h _ hstep => TcpTx.allAwait_step h hstep) ConnTable.holds_empty (along_true _ _) hrun
    obtain ⟨interest, hepoll, hawaits⟩ := (hall.live fd).of_find hconn
    refine ⟨interest, hepoll, ?_⟩
    rw [ne_eq, ← conn.content_eq_nil_iff]
    exact ⟨hawaits.pending, hawaits.output List.not_mem_nil⟩
  · intro reactor as t hrun fd conn hconn
    have hall : TlsTx.AllAwait [] t := run_induct (I := TlsTx.AllAwait [])
      (fun _ _ _ h _ hstep => TlsTx.allAwait_step h hstep) ConnTable.holds_empty (along_true _ _) hrun
    obtain ⟨interest, hepoll, hawaits⟩ := (hall.live fd).of_find hconn
    exact ⟨interest, hepoll, hawaits List.not_mem_nil⟩

/-- The sockets of a TCP and a TLS connection are full, and both wait for them. -/
theorem output_registered_blocked :
    (∃ s conn interest, run TcpTx.step TcpTx.init TcpTx.partialSends = some s ∧
      s.table.conns.find 7 = some conn ∧ s.table.epoll.find 7 = some interest ∧
      conn.txRing.readable = 1 ∧ interest.output = true) ∧
    (∃ t conn interest, run (TlsTx.step ⟨4⟩) .empty TlsTx.retriedWrites = some t ∧
      t.conns.find 7 = some conn ∧ t.epoll.find 7 = some interest ∧
      conn.finished = true ∧ conn.txQueue.length = 1 ∧ interest.output = true) := by
  constructor
  · obtain ⟨s, conn, hs, hfind, _, hone⟩ := TcpTx.run_partialSends
    obtain ⟨interest, hepoll, hiff⟩ := output_registered.1 _ s hs 7 conn hfind
    refine ⟨s, conn, interest, hs, hfind, hepoll, hone, hiff.mpr ?_⟩
    rw [hone]
    exact Nat.one_ne_zero
  · have hqueue : ((run (TlsTx.step ⟨4⟩) .empty TlsTx.retriedWrites).bind
        fun t => t.conns.find 7).map (fun conn => (conn.finished, conn.txQueue.length)) =
        some (true, 1) := by decide +kernel
    obtain ⟨conn, hconn, hpair⟩ := Option.map_eq_some_iff.mp hqueue
    obtain ⟨t, ht, hfind⟩ := Option.bind_eq_some_iff.mp hconn
    obtain ⟨hfinished, hlen⟩ := Prod.mk.inj hpair
    obtain ⟨interest, hepoll, himp⟩ := output_registered.2 ⟨4⟩ _ t ht 7 conn hfind
    refine ⟨t, conn, interest, ht, hfind, hepoll, hfinished, hlen, himp hfinished ?_⟩
    exact List.ne_nil_of_length_eq_add_one hlen

end NfEngine
