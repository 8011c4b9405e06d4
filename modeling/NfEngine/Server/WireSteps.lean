-- SUMMARY: What a step of the server does to the connections of the reactors and to the packets in the transmit queues.
import Mathlib.Tactic.Abel
import NfEngine.Server.Answers
import NfEngine.Server.Wire

/-!
# Connections and packets, step by step

What `Wire` needs to know of the exchange below it. An accepted connection is in one
place, and the reactors make an object for it once (`Follows`). A step receives packets
(`Arrived`), takes one out of a transmit queue (`Departed`), or does neither (`Quiet`).
-/

namespace NfEngine

open Lib Lib.Transition Lib.Provenance

/-! ## A connection is in one place -/

namespace Net

variable {n n' : Net} {fd : Int} {inc : ℕ}

/-- An accepted connection is in one of the tables or in the handover queue, once. -/
structure Once (n : Net) : Prop where
  unique : ∀ h h' fd fd' inc, n.Holds h fd inc → n.Holds h' fd' inc → h = h' ∧ fd = fd'
  queue_nodup : n.handoverQueue.Nodup
  lt : ∀ {h fd inc}, n.Holds h fd inc → inc < n.accepted

theorem once_init : init.Once where
  unique h _ _ _ _ hold := by cases h <;> cases hold
  queue_nodup := List.nodup_nil
  lt {h} _ _ hold := by cases h <;> cases hold

namespace Once

theorem of_sub (h : n.Once) (hsub : ∀ {holder fd inc}, n'.Holds holder fd inc → n.Holds holder fd inc)
    (hqueue : n'.handoverQueue.Nodup) (haccepted : n'.accepted = n.accepted) : n'.Once where
  unique _ _ _ _ _ hold hold' := h.unique _ _ _ _ _ (hsub hold) (hsub hold')
  queue_nodup := hqueue
  lt hold := haccepted ▸ h.lt (hsub hold)

/-- A connection passes from one holder to another, or gets lost on the way. -/
theorem move (h : n.Once) {src : Holder} (dst : Holder) (hold : n.Holds src fd inc)
    (hsub : ∀ {holder fd' i}, n'.Holds holder fd' i →
      (holder = dst ∧ fd' = fd ∧ i = inc) ∨ (n.Holds holder fd' i ∧ i ≠ inc))
    (hqueue : n'.handoverQueue.Nodup) (haccepted : n'.accepted = n.accepted) : n'.Once where
  unique _ _ _ _ _ hold₁ hold₂ := by
    rcases hsub hold₁ with ⟨rfl, rfl, rfl⟩ | ⟨hold₁, hne₁⟩ <;>
      rcases hsub hold₂ with ⟨rfl, rfl, hi⟩ | ⟨hold₂, hne₂⟩
    · exact ⟨rfl, rfl⟩
    · exact absurd rfl hne₂
    · exact absurd hi hne₁
    · exact h.unique _ _ _ _ _ hold₁ hold₂
  queue_nodup := hqueue
  lt hold' := by
    rw [haccepted]
    rcases hsub hold' with ⟨-, -, rfl⟩ | ⟨hold', -⟩
    · exact h.lt hold
    · exact h.lt hold'

/-- What another holder has is another connection. -/
theorem ne_of_ne (h : n.Once) {src holder : Holder} {fd' : Int} {i : ℕ} (hold : n.Holds src fd inc)
    (hold' : n.Holds holder fd' i) (hne : holder ≠ src ∨ fd' ≠ fd) : i ≠ inc := by
  rintro rfl
  obtain ⟨hholder, hfd⟩ := h.unique _ _ _ _ _ hold' hold
  exact hne.elim (absurd hholder) (absurd hfd)

end Once

end Net

namespace Server

variable {cfg : ServerConfig}

/-! ## What a step does to the connections -/

/-- A connection stays in one place, and objects are only made. -/
structure Follows (n n' : Net) : Prop where
  once : n'.Once
  unmade : ∀ {p : Endpoint}, p.Unmade n' → p.Unmade n

section Follows

variable {n n' : Net} {fd : Int} {inc : ℕ}

theorem follows_of_sub (h : n.Once)
    (hsub : ∀ {holder fd inc}, n'.Holds holder fd inc → n.Holds holder fd inc)
    (hqueue : n'.handoverQueue.Nodup) (haccepted : n'.accepted = n.accepted) : Follows n n' where
  once := h.of_sub hsub hqueue haccepted
  unmade {p} hp := by
    cases p with
    | tcp i => exact haccepted.symm.le.trans hp
    | tls i =>
      rcases hp with hle | ⟨fd, hold | hold⟩
      · exact .inl (haccepted ▸ hle)
      · exact .inr ⟨fd, .inl (hsub hold)⟩
      · exact .inr ⟨fd, .inr (hsub hold)⟩
    | udp => exact hp

theorem follows_accept (h : n.Once) (hstep : n.acceptConnection fd = some n') : Follows n n' := by
  unfold Net.acceptConnection at hstep
  split at hstep
  next => cases hstep
  next =>
    cases hstep
    have hsub : ∀ {holder fd' i}, Net.Holds { n with
        kernel := n.kernel.insert fd (.conn n.accepted)
        accepted := n.accepted + 1
        tcpConns := n.tcpConns.emplace fd n.accepted } holder fd' i →
        n.Holds holder fd' i ∨ (holder = .tcp ∧ fd' = fd ∧ i = n.accepted) := by
      intro holder fd' i hold
      cases holder with
      | tcp =>
        rcases Map.find_emplace_eq_some hold with hold | ⟨rfl, rfl⟩
        · exact .inl hold
        · exact .inr ⟨rfl, rfl, rfl⟩
      | handover => exact .inl hold
      | tls => exact .inl hold
    refine ⟨⟨fun _ _ _ _ i hold₁ hold₂ => ?_, h.queue_nodup, fun hold => ?_⟩, fun {p} hp => ?_⟩
    · rcases hsub hold₁ with hleft | ⟨rfl, rfl, rfl⟩ <;> rcases hsub hold₂ with hright | ⟨rfl, rfl, hi⟩
      · exact h.unique _ _ _ _ _ hleft hright
      · exact absurd (h.lt hleft) (hi ▸ lt_irrefl i)
      · exact absurd (h.lt hright) (lt_irrefl _)
      · exact ⟨rfl, rfl⟩
    · rcases hsub hold with hold | ⟨-, -, rfl⟩
      · exact (h.lt hold).trans (Nat.lt_succ_self _)
      · exact Nat.lt_succ_self _
    · cases p with
      | tcp i => exact (Nat.le_succ _).trans hp
      | tls i =>
        rcases hp with hle | ⟨fd', hold | hold⟩
        · exact .inl ((Nat.le_succ _).trans hle)
        · rcases hsub hold with hold | ⟨-, -, rfl⟩
          · exact .inr ⟨fd', .inl hold⟩
          · exact .inl le_rfl
        · exact .inr ⟨fd', .inr hold⟩
      | udp => exact hp

theorem follows_tcpClose (h : n.Once) (fd : Int) : Follows n (n.tcpCloseConnection fd) := by
  refine follows_of_sub h (fun {holder _ _} hold => ?_) h.queue_nodup rfl
  cases holder with
  | tcp => exact (Map.find_erase_eq_some.mp hold).2
  | handover => exact hold
  | tls => exact hold

theorem follows_tlsClose (h : n.Once) (fd : Int) : Follows n (n.tlsCloseConnection fd) := by
  refine follows_of_sub h (fun {holder _ _} hold => ?_) h.queue_nodup rfl
  cases holder with
  | tcp => exact hold
  | handover => exact hold
  | tls => exact (Map.find_erase_eq_some.mp hold).2

/-- A connection that passes on towards the TLS reactor. -/
theorem follows_of_move (h : n.Once) {src : Net.Holder} (dst : Net.Holder)
    (hold : n.Holds src fd inc) (hsrc : src ≠ .tls)
    (hsub : ∀ {holder fd' i}, n'.Holds holder fd' i →
      (holder = dst ∧ fd' = fd ∧ i = inc) ∨ (n.Holds holder fd' i ∧ i ≠ inc))
    (hqueue : n'.handoverQueue.Nodup) (haccepted : n'.accepted = n.accepted) : Follows n n' where
  once := h.move dst hold hsub hqueue haccepted
  unmade {p} hp := by
    have hsame : n.Holds .tcp fd inc ∨ n.Holds .handover fd inc := by
      cases src with
      | tcp => exact .inl hold
      | handover => exact .inr hold
      | tls => exact absurd rfl hsrc
    cases p with
    | tcp i => exact haccepted.symm.le.trans hp
    | tls i =>
      rcases hp with hle | ⟨fd', hold' | hold'⟩
      · exact .inl (haccepted ▸ hle)
      all_goals rcases hsub hold' with ⟨-, rfl, rfl⟩ | ⟨hold', -⟩
      · exact .inr ⟨_, hsame⟩
      · exact .inr ⟨fd', .inl hold'⟩
      · exact .inr ⟨_, hsame⟩
      · exact .inr ⟨fd', .inr hold'⟩
    | udp => exact hp

theorem follows_handover (h : n.Once) (fd : Int) (enqueued : Bool) :
    Follows n (n.handoverToTls fd enqueued) := by
  unfold Net.handoverToTls
  cases hfind : n.tcpConns.find fd with
  | none => exact follows_tcpClose h fd
  | some inc =>
    have hold : n.Holds .tcp fd inc := hfind
    cases enqueued with
    | false =>
      refine follows_of_sub h (fun {holder _ _} hold' => ?_) h.queue_nodup rfl
      cases holder with
      | tcp => exact (Map.find_erase_eq_some.mp hold').2
      | handover => exact hold'
      | tls => exact hold'
    | true =>
      refine follows_of_move h .handover hold (by decide) (fun {holder fd' i} hold' => ?_) ?_ rfl
      · cases holder with
        | tcp =>
          obtain ⟨hne, htcp⟩ := Map.find_erase_eq_some.mp hold'
          have hother : n.Holds .tcp fd' i := htcp
          exact .inr ⟨hother, h.ne_of_ne hold hother (.inr hne)⟩
        | handover =>
          rcases List.mem_append.mp hold' with hmem | hnew
          · have hother : n.Holds .handover fd' i := hmem
            exact .inr ⟨hother, h.ne_of_ne hold hother (.inl (by decide))⟩
          · cases List.mem_singleton.mp hnew
            exact .inl ⟨rfl, rfl, rfl⟩
        | tls =>
          have hother : n.Holds .tls fd' i := hold'
          exact .inr ⟨hother, h.ne_of_ne hold hother (.inl (by decide))⟩
      · refine List.nodup_append.mpr ⟨h.queue_nodup, List.nodup_singleton _, ?_⟩
        rintro item hitem _ hsingle rfl
        rw [List.mem_singleton.mp hsingle] at hitem
        have hother : n.Holds .handover fd inc := hitem
        exact h.ne_of_ne hold hother (.inl (by decide)) rfl

theorem follows_processHandover (h : n.Once) {sslNew : Bool} (hstep : n.processHandover sslNew = some n') :
    Follows n n' := by
  unfold Net.processHandover at hstep
  split at hstep
  next => cases hstep
  next fd inc items hq =>
    have hold : n.Holds .handover fd inc := by simp [Net.Holds, hq]
    have hnodup := List.nodup_cons.mp (hq ▸ h.queue_nodup)
    have htail : ∀ {fd' i}, (fd', i) ∈ items → n.Holds .handover fd' i ∧ i ≠ inc := by
      intro fd' i hmem
      have hold' : n.Holds .handover fd' i := by simp [Net.Holds, hq, hmem]
      refine ⟨hold', ?_⟩
      rintro rfl
      obtain ⟨-, rfl⟩ := h.unique _ _ _ _ _ hold' hold
      exact hnodup.1 hmem
    split at hstep <;> cases hstep
    · refine follows_of_move h .tls hold (by decide) (fun {holder fd' i} hold' => ?_) hnodup.2 rfl
      cases holder with
      | tcp =>
        have hother : n.Holds .tcp fd' i := hold'
        exact .inr ⟨hother, h.ne_of_ne hold hother (.inl (by decide))⟩
      | handover => exact .inr (htail hold')
      | tls =>
        rcases Map.find_emplace_eq_some hold' with htls | ⟨rfl, rfl⟩
        · have hother : n.Holds .tls fd' i := htls
          exact .inr ⟨hother, h.ne_of_ne hold hother (.inl (by decide))⟩
        · exact .inl ⟨rfl, rfl, rfl⟩
    · refine follows_of_sub h (fun {holder _ _} hold' => ?_) hnodup.2 rfl
      cases holder with
      | tcp => exact hold'
      | handover => exact (htail hold').1
      | tls => exact hold'

end Follows

/-- What a step of the server does to the connections. -/
inductive NetMoves (n : Net) : Act cfg → Net → Prop where
  | same {a : Act cfg} (ha : ∀ fd, a ≠ .tlsClose fd) : NetMoves n a n
  | accept {fd : Int} {n' : Net} (h : n.acceptConnection fd = some n') : NetMoves n (.accept fd) n'
  | tcpClose {fd : Int} : NetMoves n (.tcpClose fd) (n.tcpCloseConnection fd)
  | tlsClose {fd : Int} : NetMoves n (.tlsClose fd) (n.tlsCloseConnection fd)
  | handover {fd : Int} {enqueued : Bool} :
      NetMoves n (.handover fd enqueued) (n.handoverToTls fd enqueued)
  | processHandover {sslNew : Bool} {n' : Net} (h : n.processHandover sslNew = some n') :
      NetMoves n (.processHandover sslNew) n'

theorem netMoves_of_step {s s' : Server cfg} {a : Act cfg} (hstep : s.step a = some s') :
    NetMoves s.net a s'.net := by
  cases a with
  | accept fd =>
    obtain ⟨net, hnet, rfl⟩ := Option.map_eq_some_iff.mp hstep
    exact .accept hnet
  | tcpClose fd =>
    cases hstep
    exact .tcpClose
  | tlsClose fd =>
    cases hstep
    exact .tlsClose
  | handover fd enqueued =>
    cases hstep
    exact .handover
  | processHandover sslNew =>
    obtain ⟨net, hnet, rfl⟩ := Option.map_eq_some_iff.mp hstep
    exact .processHandover hnet
  | tcpReceive fd src payload | tlsReceive fd src payload =>
    obtain ⟨inc, -, rfl⟩ := Option.map_eq_some_iff.mp hstep
    exact .same nofun
  | udpReceive src payload =>
    cases hstep
    exact .same nofun
  | route w drawn =>
    obtain ⟨item, rest, -, -, ⟨-, rfl⟩ | ⟨parsed, sm, parsed', -, -, rfl⟩⟩ := route_eq_some hstep
    · exact .same nofun
    · exact .same nofun
  | dispatch w =>
    obtain ⟨idx, event, -, ⟨hidx, rfl⟩ | rfl⟩ := dispatch_eq_some hstep
    · exact .same nofun
    · exact .same nofun
  | handleEvent k db =>
    obtain ⟨event, events, -, rfl⟩ := handleEvent_eq_some hstep
    exact .same nofun
  | snapshot k serverTs =>
    obtain ⟨events, action, actions, -, rfl | ⟨snap, -, rfl⟩⟩ := snapshot_eq_some hstep
    · exact .same nofun
    · exact .same nofun
  | update k =>
    obtain ⟨events, actions, action, payload, snap, -, rfl⟩ := update_eq_some hstep
    exact .same nofun
  | send k enqueued =>
    obtain ⟨events, actions, action, payload, snap, -, rfl | ⟨packet, -, rfl⟩⟩ := send_eq_some hstep
    · exact .same nofun
    · have hnet := ((s.setShard k ⟨events, actions, .idle⟩).enqueueTx_same
        ⟨packet, action.sessionId⟩ enqueued).1
      change NetMoves s.net _ (((s.setShard k _).enqueueTx _ _).net)
      rw [hnet]
      exact .same nofun
  | tcpPlace fits =>
    change s.tcpPlace fits = some s' at hstep
    unfold Server.tcpPlace at hstep
    repeat' split at hstep
    all_goals cases hstep
    all_goals exact .same nofun
  | tlsPlace =>
    change s.tlsPlace = some s' at hstep
    unfold Server.tlsPlace at hstep
    repeat' split at hstep
    all_goals cases hstep
    all_goals exact .same nofun
  | udpFlush sent =>
    change s.udpFlush sent = some s' at hstep
    unfold Server.udpFlush at hstep
    split at hstep <;> cases hstep
    exact .same nofun

theorem NetMoves.follows {n n' : Net} {a : Act cfg} (hmoves : NetMoves n a n') (h : n.Once) :
    Follows n n' := by
  cases hmoves with
  | same _ => exact ⟨h, id⟩
  | accept hstep => exact follows_accept h hstep
  | tcpClose => exact follows_tcpClose h _
  | tlsClose => exact follows_tlsClose h _
  | handover => exact follows_handover h _ _
  | processHandover hstep => exact follows_processHandover h hstep

/-- Only the handover gives the TLS reactor a connection. -/
theorem NetMoves.tls {n n' : Net} {a : Act cfg} (hmoves : NetMoves n a n') {fd : Int} {inc : ℕ}
    (hfind : n'.tlsConns.find fd = some inc) :
    n.tlsConns.find fd = some inc ∨ (a = .processHandover true ∧ n.handoverQueue.head? = some (fd, inc)) := by
  cases hmoves with
  | same _ => exact .inl hfind
  | accept hstep =>
    unfold Net.acceptConnection at hstep
    split at hstep <;> cases hstep
    exact .inl hfind
  | tcpClose => exact .inl hfind
  | tlsClose => exact .inl (Map.find_erase_eq_some.mp hfind).2
  | @handover fd' enqueued =>
    unfold Net.handoverToTls Net.handover at hfind
    repeat' split at hfind
    all_goals exact .inl hfind
  | processHandover hstep =>
    unfold Net.processHandover at hstep
    split at hstep
    next => cases hstep
    next fd' inc' items hq =>
      split at hstep <;> cases hstep
      next hnew =>
        rcases Map.find_emplace_eq_some hfind with hfind | ⟨rfl, rfl⟩
        · exact .inl hfind
        · exact .inr ⟨by rw [hnew], by rw [hq, List.head?_cons]⟩
      next => exact .inl hfind

/-! ## What a step does to the packets -/

/-- The payloads in the transmit queues. -/
def queued (s : Server cfg) : Multiset (List UInt8) :=
  (s.tcpTx.map fun item => item.packet.payload : List (List UInt8)) +
    (s.tlsTx.map fun item => item.packet.payload : List (List UInt8)) +
    (s.udpTx.map fun item => item.packet.payload : List (List UInt8))

theorem queued_enqueueTx (s : Server cfg) (item : TxItem) :
    (s.enqueueTx item true).queued ≤ s.queued + {item.packet.payload} := by
  unfold enqueueTx
  rw [if_pos rfl]
  split
  case h_4 => exact Multiset.le_add_right _ _
  all_goals
    simp only [queued, List.map_append, List.map_cons, List.map_nil, ← Multiset.coe_add,
      Multiset.coe_singleton]
    exact le_of_eq (by abel)

namespace Exchange

variable {e e' : Exchange cfg} {a : Act cfg}

/-- The step brings no packet, and what it puts into a transmit queue is observed. -/
structure Quiet (e e' : Exchange cfg) : Prop where
  received : e'.received = e.received
  queued : ∃ new, e'.server.queued ≤ e.server.queued + new ∧ e'.outbox = e.outbox + new

theorem quiet_of_same (hreceived : e'.received = e.received)
    (hqueued : e'.server.queued ≤ e.server.queued) (hsent : e'.sent = e.sent) : Quiet e e' where
  received := hreceived
  queued := ⟨0, by rwa [add_zero], by rw [outbox, outbox, hsent, add_zero]⟩

theorem quiet_send {k : Fin cfg.shardCount} {enqueued : Bool} {s : Server cfg}
    (hstep : e.server.send k enqueued = some s) : Quiet e (e.observe (.send k enqueued) s) := by
  unfold Server.send at hstep
  split at hstep
  next events actions action payload snap hk =>
    have hpc : (e.server.shards k).pc = .send action payload snap := by rw [hk]
    cases hbuild : PacketBuilder.build payload snap with
    | none =>
      simp only [hbuild, Option.some.injEq] at hstep
      subst hstep
      cases enqueued with
      | false => exact quiet_of_same rfl le_rfl rfl
      | true =>
        simp only [observe, hpc, hbuild]
        exact quiet_of_same rfl le_rfl rfl
    | some packet =>
      simp only [hbuild, Option.some.injEq] at hstep
      subst hstep
      cases enqueued with
      | false => exact quiet_of_same rfl le_rfl rfl
      | true =>
        simp only [observe, hpc, hbuild]
        refine ⟨rfl, {packet.payload}, ?_, ?_⟩
        · exact queued_enqueueTx (e.server.setShard k ⟨events, actions, .idle⟩) ⟨packet, action.sessionId⟩
        · obtain ⟨rest, hself, hupd⟩ := exists_sum_update_eq
            (fun sent : List Packet => (sent.map Packet.payload : Multiset (List UInt8))) e.sent k
          simp only [outbox, hself, hupd, List.map_append, List.map_cons, List.map_nil,
            ← Multiset.coe_add, Multiset.coe_singleton]
          abel
  next => cases hstep

theorem quiet_of_step (ha : a.isQuiet = true) (hstep : e.step a = some e') : Quiet e e' := by
  obtain ⟨s, hs, rfl⟩ := Option.map_eq_some_iff.mp hstep
  cases a with
  | tcpReceive | tlsReceive | udpReceive | tcpPlace | tlsPlace => cases ha
  | accept fd =>
    obtain ⟨net, -, rfl⟩ := Option.map_eq_some_iff.mp hs
    exact quiet_of_same rfl le_rfl rfl
  | tcpClose fd | tlsClose fd | handover fd enqueued =>
    cases hs
    exact quiet_of_same rfl le_rfl rfl
  | processHandover sslNew =>
    obtain ⟨net, -, rfl⟩ := Option.map_eq_some_iff.mp hs
    exact quiet_of_same rfl le_rfl rfl
  | route w drawn =>
    have hsame : s.queued = e.server.queued := by
      obtain ⟨item, rest, -, -, ⟨-, rfl⟩ | ⟨parsed, sm, parsed', -, -, rfl⟩⟩ := route_eq_some hs
      · rfl
      · rfl
    unfold observe
    dsimp only
    repeat' split
    all_goals exact quiet_of_same rfl hsame.le rfl
  | dispatch w =>
    have hsame : s.queued = e.server.queued := by
      obtain ⟨idx, event, -, ⟨hidx, rfl⟩ | rfl⟩ := dispatch_eq_some hs
      · rfl
      · rfl
    unfold observe
    dsimp only
    repeat' split
    all_goals exact quiet_of_same rfl hsame.le rfl
  | handleEvent k db =>
    obtain ⟨event, events, hk, rfl⟩ := handleEvent_eq_some hs
    simp only [observe, hk]
    exact quiet_of_same rfl le_rfl rfl
  | snapshot k serverTs =>
    obtain ⟨events, action, actions, -, rfl | ⟨snap, -, rfl⟩⟩ := snapshot_eq_some hs
    · exact quiet_of_same rfl le_rfl rfl
    · exact quiet_of_same rfl le_rfl rfl
  | update k =>
    obtain ⟨events, actions, action, payload, snap, -, rfl⟩ := update_eq_some hs
    exact quiet_of_same rfl le_rfl rfl
  | send k enqueued => exact quiet_send hs
  | udpFlush sent =>
    change e.server.udpFlush sent = some s at hs
    unfold Server.udpFlush at hs
    split at hs <;> cases hs
    next item items hq =>
      have hle : ((if sent then items else items ++ [item] : List TxItem) : Multiset TxItem) ≤
          e.server.udpTx := by
        rw [hq]
        cases sent with
        | true => exact (List.sublist_cons_self item items).subperm
        | false => exact (List.perm_append_singleton item items).subperm
      exact quiet_of_same rfl (add_le_add le_rfl (Multiset.map_le_map hle)) rfl

/-- The step receives a packet with this payload. -/
def Brings (payload : List UInt8) : Act cfg → Prop
  | .tcpReceive _ _ payload' | .tlsReceive _ _ payload' | .udpReceive _ payload' => payload' = payload
  | _ => False

/-- Packets with these payloads have come in, and nothing else has changed that `Wire` looks at. -/
structure Arrived (e : Exchange cfg) (payloads : List (List UInt8)) (e' : Exchange cfg) : Prop where
  received : e'.received.map Packet.payload = e.received.map Packet.payload ++ payloads
  net : e'.server.net = e.server.net
  queued : e'.server.queued = e.server.queued
  outbox : e'.outbox = e.outbox

theorem arrived_of_step {payload : List UInt8} (ha : Brings payload a) (hstep : e.step a = some e') :
    Arrived e [payload] e' := by
  obtain ⟨s, hs, rfl⟩ := Option.map_eq_some_iff.mp hstep
  cases a with
  | tcpReceive fd src payload' | tlsReceive fd src payload' =>
    cases ha
    obtain ⟨inc, -, rfl⟩ := Option.map_eq_some_iff.mp hs
    exact ⟨List.map_append, rfl, rfl, rfl⟩
  | udpReceive src payload' =>
    cases ha
    cases hs
    exact ⟨List.map_append, rfl, rfl, rfl⟩
  | _ => cases ha

/-- The dispatch loop of a receive handler. -/
theorem arrived_of_run {act : List UInt8 → Act cfg} (hact : ∀ payload, Brings payload (act payload))
    {payloads : List (List UInt8)} (hrun : run step e (payloads.map act) = some e') :
    Arrived e payloads e' := by
  induction payloads generalizing e with
  | nil =>
    cases hrun
    exact ⟨(List.append_nil _).symm, rfl, rfl, rfl⟩
  | cons payload payloads ih =>
    obtain ⟨e₁, hstep, hrest⟩ := run_cons_eq_some.mp hrun
    have hfirst := arrived_of_step (hact payload) hstep
    have hmore := ih hrest
    refine ⟨?_, hmore.net.trans hfirst.net, hmore.queued.trans hfirst.queued,
      hmore.outbox.trans hfirst.outbox⟩
    rw [hmore.received, hfirst.received, List.append_assoc, List.singleton_append]

/-- A packet has left its transmit queue. -/
structure Departed (e : Exchange cfg) (payload : List UInt8) (e' : Exchange cfg) : Prop where
  received : e'.received = e.received
  queued : e.server.queued = payload ::ₘ e'.server.queued
  outbox : e'.outbox = e.outbox

theorem departed_tcpPlace {fits : Bool} {item : TxItem} {items : List TxItem}
    (hq : e.server.tcpTx = item :: items) (hstep : e.step (.tcpPlace fits) = some e') :
    Departed e item.packet.payload e' := by
  obtain ⟨s, hs, rfl⟩ := Option.map_eq_some_iff.mp hstep
  have hqueues : s.tcpTx = items ∧ s.tlsTx = e.server.tlsTx ∧ s.udpTx = e.server.udpTx := by
    change e.server.tcpPlace fits = some s at hs
    unfold Server.tcpPlace at hs
    simp only [hq] at hs
    repeat' split at hs
    all_goals cases hs
    all_goals exact ⟨rfl, rfl, rfl⟩
  obtain ⟨htcp, htls, hudp⟩ := hqueues
  refine ⟨rfl, ?_, rfl⟩
  change e.server.queued = _ ::ₘ s.queued
  rw [Server.queued, Server.queued, htcp, htls, hudp, hq, List.map_cons, ← Multiset.cons_coe,
    Multiset.cons_add, Multiset.cons_add]

theorem departed_tlsPlace {item : TxItem} {items : List TxItem} (hq : e.server.tlsTx = item :: items)
    (hstep : e.step .tlsPlace = some e') : Departed e item.packet.payload e' := by
  obtain ⟨s, hs, rfl⟩ := Option.map_eq_some_iff.mp hstep
  have hqueues : s.tcpTx = e.server.tcpTx ∧ s.tlsTx = items ∧ s.udpTx = e.server.udpTx := by
    change e.server.tlsPlace = some s at hs
    unfold Server.tlsPlace at hs
    simp only [hq] at hs
    split at hs
    all_goals cases hs
    all_goals exact ⟨rfl, rfl, rfl⟩
  obtain ⟨htcp, htls, hudp⟩ := hqueues
  refine ⟨rfl, ?_, rfl⟩
  change e.server.queued = _ ::ₘ s.queued
  rw [Server.queued, Server.queued, htcp, htls, hudp, hq, List.map_cons, ← Multiset.cons_coe,
    Multiset.add_cons, Multiset.cons_add]

end Exchange

end Server

end NfEngine
