-- SUMMARY: Which connections are present under a descriptor number, and when at most one is.
import NfEngine.Server.Effects

/-!
# Connections present in the server

A connection is present under its descriptor number while a reactor has it or a
packet from it waits at a worker. The number of a closed connection can come back
while such a packet still waits, and the packet then passes for one of the new
connection. `Distinct` says that this has not happened; it lasts as long as the
kernel returns only numbers that are not in use in this sense.
-/

namespace NfEngine

open Lib

namespace Server

variable {cfg : ServerConfig} {s s' : Server cfg} {a : Act cfg} {fd : Int} {inc inc' : ℕ}

/-- The packet waits at a worker. -/
def Waits (s : Server cfg) (item : RxItem) : Prop := ∃ w, item ∈ (s.workers w).rxQueue

def Present (s : Server cfg) (fd : Int) (inc : ℕ) : Prop :=
  s.net.Around fd inc ∨ ∃ item, s.Waits item ∧ item.packet.fd = fd ∧ item.inc = some inc

/-- A table, the handover queue or a waiting packet has the number. -/
def inUse (s : Server cfg) (fd : Int) : Bool :=
  s.net.tcpConns.contains fd || s.net.tlsConns.contains fd ||
    s.net.handoverQueue.any (fun p => p.1 = fd) ||
    decide (∃ w, ∃ item ∈ (s.workers w).rxQueue, item.packet.fd = fd)

theorem inUse_of_present (h : s.Present fd inc) : s.inUse fd = true := by
  simp only [inUse, Bool.or_eq_true, Map.contains_eq_true, List.any_eq_true, decide_eq_true_eq]
  rcases h with ⟨holder, hold⟩ | ⟨item, ⟨w, hmem⟩, hfd, _⟩
  · cases holder with
    | tcp => exact .inl (.inl (.inl ⟨inc, hold⟩))
    | handover => exact .inl (.inr ⟨(fd, inc), hold, rfl⟩)
    | tls => exact .inl (.inl (.inr ⟨inc, hold⟩))
  · exact .inr ⟨w, item, hmem, hfd⟩

/-! ## What a step adds -/

theorem Waits.setWorker {w : WorkerId cfg} {worker : Worker} {item : RxItem}
    (h : (s.setWorker w worker).Waits item) : s.Waits item ∨ item ∈ worker.rxQueue := by
  obtain ⟨w', hmem⟩ := h
  by_cases hw : w' = w
  · subst hw
    simp only [Server.setWorker, Function.update_self] at hmem
    exact .inr hmem
  · simp only [Server.setWorker, ne_eq, hw, not_false_eq_true, Function.update_of_ne] at hmem
    exact .inl ⟨w', hmem⟩

theorem Frame.waits (h : Frame s s') {item : RxItem} (hw : s'.Waits item) : s.Waits item := by
  obtain ⟨w, hmem⟩ := hw
  exact ⟨w, h.rxQueue w hmem⟩

theorem Effect.waits (heff : Effect s a s') {item : RxItem} (h : s'.Waits item) :
    s.Waits item ∨ s.Arrives item := by
  cases heff with
  | accept _ => exact .inl h
  | conns _ => exact .inl h
  | @receive _ w new hitem =>
    rcases Waits.setWorker h with h | h
    · exact .inl h
    · rcases List.mem_append.mp h with h | h
      · exact .inl ⟨w, h⟩
      · exact .inr (List.mem_singleton.mp h ▸ hitem)
  | @route w _ _ _ _ _ _ hq _ _ _ =>
    rcases Waits.setWorker h with h | h
    · exact .inl h
    · exact .inl ⟨w, hq ▸ List.mem_cons_of_mem _ h⟩
  | inside hframe _ _ _ => exact .inl (hframe.waits h)
  | snapshot _ _ => exact .inl h
  | update _ => exact .inl h
  | send _ _ hframe _ _ _ => exact .inl (hframe.waits h)
  | place _ _ hframe _ _ _ => exact .inl (hframe.waits h)

theorem Effect.around (heff : Effect s a s') (h : s'.net.Around fd inc) :
    s.net.Around fd inc ∨ (a = .accept fd ∧ 0 ≤ fd ∧ inc = s.net.accepted) := by
  cases heff with
  | accept haccept =>
    rcases Net.around_acceptConnection haccept h with h | ⟨rfl, rfl⟩
    · exact .inl h
    · exact .inr ⟨rfl, Net.nonneg_of_acceptConnection haccept, rfl⟩
  | conns haround => exact .inl (haround h)
  | receive _ => exact .inl h
  | route _ _ _ _ => exact .inl h
  | inside hframe _ _ _ => exact .inl (hframe.net ▸ h)
  | snapshot _ _ => exact .inl h
  | update _ => exact .inl h
  | send _ _ hframe _ _ _ => exact .inl (hframe.net ▸ h)
  | place _ _ hframe _ _ _ => exact .inl (hframe.net ▸ h)

/-- Only accepting makes a connection present. -/
theorem Effect.present (heff : Effect s a s') (h : s'.Present fd inc) :
    s.Present fd inc ∨ (a = .accept fd ∧ 0 ≤ fd ∧ inc = s.net.accepted) := by
  rcases h with h | ⟨item, hw, rfl, hinc⟩
  · rcases heff.around h with h | h
    · exact .inl (.inl h)
    · exact .inr h
  · rcases heff.waits hw with hw | ⟨inc', hinc', haround⟩ | ⟨hnone, -⟩
    · exact .inl (.inr ⟨item, hw, rfl, hinc⟩)
    · cases hinc.symm.trans hinc'
      exact .inl (.inl haround)
    · cases hinc.symm.trans hnone

/-! ## At most one connection under a number -/

structure Distinct (s : Server cfg) : Prop where
  unique : ∀ {fd inc inc'}, s.Present fd inc → s.Present fd inc' → inc = inc'
  nonneg : ∀ {fd inc}, s.Present fd inc → 0 ≤ fd
  datagram : ∀ {item}, s.Waits item → item.inc = none →
    item.packet.fd = cfg.udpFd ∧ item.packet.connInfo.protocol = .udp

theorem not_present_init : ¬ (init cfg).Present fd inc := by
  rintro (⟨holder, hold⟩ | ⟨item, ⟨w, hmem⟩, _⟩)
  · cases holder <;> cases hold
  · cases hmem

theorem distinct_init : (init cfg).Distinct where
  unique h := (not_present_init h).elim
  nonneg h := (not_present_init h).elim
  datagram := by
    rintro item ⟨w, hmem⟩
    cases hmem

theorem Distinct.step (h : s.Distinct) (heff : Effect s a s')
    (hfresh : ∀ fd, a = .accept fd → s.inUse fd = false) : s'.Distinct where
  unique := by
    intro fd inc inc' hp hp'
    have hnew : a = .accept fd → ∀ i, ¬ s.Present fd i := fun ha i hpres => by
      have hfalse := hfresh fd ha
      rw [inUse_of_present hpres] at hfalse
      cases hfalse
    rcases heff.present hp with hp | ⟨ha, -, rfl⟩
    · rcases heff.present hp' with hp' | ⟨ha, -, -⟩
      · exact h.unique hp hp'
      · exact absurd hp (hnew ha _)
    · rcases heff.present hp' with hp' | ⟨-, -, rfl⟩
      · exact absurd hp' (hnew ha _)
      · rfl
  nonneg := by
    intro fd inc hp
    rcases heff.present hp with hp | ⟨-, hfd, -⟩
    · exact h.nonneg hp
    · exact hfd
  datagram := by
    intro item hw hnone
    rcases heff.waits hw with hw | ⟨inc, hinc, -⟩ | ⟨-, harr⟩
    · exact h.datagram hw hnone
    · cases hnone.symm.trans hinc
    · exact harr

/-- The packet in hand is from the one connection that is present under its number,
    unless it is a datagram. -/
theorem Distinct.inc_eq (h : s.Distinct) {item : RxItem} (hw : s.Waits item)
    (hp : s.Present item.packet.fd inc)
    (hconn : item.packet.fd ≠ cfg.udpFd ∨ item.packet.connInfo.protocol ≠ .udp) :
    item.inc = some inc := by
  cases hinc : item.inc with
  | none =>
    obtain ⟨hfd, hproto⟩ := h.datagram hw hinc
    rcases hconn with hne | hne
    · exact absurd hfd hne
    · exact absurd hproto hne
  | some inc' => rw [h.unique hp (.inr ⟨item, hw, rfl, hinc⟩)]

end Server

end NfEngine
