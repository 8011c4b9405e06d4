-- SUMMARY: The connections of a reactor with their epoll registrations, and the rules for what holds of each connection.
import NfEngine.Lib.Map

/-!
# The connections of a reactor

`m_conns` and the interest that is registered with epoll for each descriptor. Both
reactors change them with the same few calls. `Epoll::add`, `mod` and `del` return
whether `epoll_ctl` succeeded and no caller looks at it: a call that fails changes
nothing.

`Holds` says of every descriptor that it is in `m_conns` exactly when it is
registered, and what is true of the connection and its interest. Connections that the
reactor has given up are kept on record.
-/

namespace NfEngine

open Lib

/-- The bits of a registered interest: `EPOLLIN`, `EPOLLOUT` and `EPOLLRDHUP`. -/
structure Interest where
  input : Bool
  output : Bool
  rdhup : Bool
  deriving DecidableEq, Repr

/-- `EPOLLIN | EPOLLRDHUP` -/
def Interest.read : Interest := ⟨true, false, true⟩

/-- `EPOLLIN | EPOLLOUT | EPOLLRDHUP` -/
def Interest.readWrite : Interest := ⟨true, true, true⟩

structure ConnTable (γ : Type) where
  conns : Map Int γ
  epoll : Map Int Interest
  /-- The connections that were closed or handed over. -/
  gone : List γ

namespace ConnTable

variable {γ : Type}

def empty : ConnTable γ := ⟨Map.empty, Map.empty, []⟩

/-- Put a new connection into `m_conns` and register it. -/
def add (t : ConnTable γ) (fd : Int) (conn : γ) : ConnTable γ :=
  { t with conns := t.conns.emplace fd conn, epoll := t.epoll.emplace fd .read }

/-- A connection is changed in place. -/
def set (t : ConnTable γ) (fd : Int) (conn : γ) : ConnTable γ :=
  { t with conns := t.conns.insert fd conn }

def mod (t : ConnTable γ) (fd : Int) (interest : Interest) : ConnTable γ :=
  if t.epoll.contains fd then { t with epoll := t.epoll.insert fd interest } else t

def closeConnection (t : ConnTable γ) (fd : Int) : ConnTable γ :=
  ⟨t.conns.erase fd, t.epoll.erase fd, t.gone ++ (t.conns.find fd).toList⟩

/-- A connection that the reactor has or has had. -/
def Known (t : ConnTable γ) (conn : γ) : Prop := (∃ fd, t.conns.find fd = some conn) ∨ conn ∈ t.gone

/-! ## What holds of each connection -/

/-- The descriptor is neither in `m_conns` nor registered, or it is both and satisfies
    `P`. -/
inductive At (P : Int → γ → Interest → Prop) (t : ConnTable γ) (fd : Int) : Prop
  | absent (hconn : t.conns.find fd = none) (hepoll : t.epoll.find fd = none)
  | present {conn : γ} {interest : Interest} (hconn : t.conns.find fd = some conn)
      (hepoll : t.epoll.find fd = some interest) (h : P fd conn interest)

structure Holds (P : Int → γ → Interest → Prop) (G : γ → Prop) (t : ConnTable γ) : Prop where
  live : ∀ fd, t.At P fd
  gone : ∀ conn ∈ t.gone, G conn

/-- Two tables that differ in one descriptor only. -/
def SameOff (t t' : ConnTable γ) (fd : Int) : Prop :=
  ∀ fd', fd' ≠ fd → t'.conns.find fd' = t.conns.find fd' ∧ t'.epoll.find fd' = t.epoll.find fd'

variable {P P' : Int → γ → Interest → Prop} {G G' : γ → Prop} {t t' : ConnTable γ} {fd : Int}
  {conn conn' : γ} {interest : Interest}

theorem SameOff.trans {t'' : ConnTable γ} (h : t.SameOff t' fd) (h' : t'.SameOff t'' fd) :
    t.SameOff t'' fd :=
  fun fd' hne => ⟨(h' fd' hne).1.trans (h fd' hne).1, (h' fd' hne).2.trans (h fd' hne).2⟩

theorem sameOff_set (t : ConnTable γ) (fd : Int) (conn : γ) : t.SameOff (t.set fd conn) fd :=
  fun _ hne => ⟨Map.find_insert_ne _ _ hne, rfl⟩

theorem sameOff_mod (t : ConnTable γ) (fd : Int) (interest : Interest) :
    t.SameOff (t.mod fd interest) fd := by
  intro fd' hne
  unfold mod
  split
  · exact ⟨rfl, Map.find_insert_ne _ _ hne⟩
  · exact ⟨rfl, rfl⟩

theorem sameOff_closeConnection (t : ConnTable γ) (fd : Int) : t.SameOff (t.closeConnection fd) fd :=
  fun _ hne => ⟨Map.find_erase_ne _ hne, Map.find_erase_ne _ hne⟩

theorem At.of_find (h : t.At P fd) (hconn : t.conns.find fd = some conn) :
    ∃ interest, t.epoll.find fd = some interest ∧ P fd conn interest := by
  cases h with
  | absent habsent => exact absurd (hconn.symm.trans habsent) nofun
  | present hconn' hepoll hP =>
    obtain rfl := Option.some.inj (hconn.symm.trans hconn')
    exact ⟨_, hepoll, hP⟩

theorem at_closeConnection : (t.closeConnection fd).At P fd :=
  .absent (Map.find_erase_same ..) (Map.find_erase_same ..)

theorem At.set (h : t.At P fd) (hconn : t.conns.find fd = some conn)
    (hP : ∀ interest, P fd conn interest → P' fd conn' interest) : (t.set fd conn').At P' fd := by
  obtain ⟨interest, hepoll, hold⟩ := h.of_find hconn
  exact .present (Map.find_insert_same ..) hepoll (hP interest hold)

theorem At.mod (h : t.At P fd)
    (hP : ∀ conn old, t.conns.find fd = some conn → P fd conn old → P' fd conn interest) :
    (t.mod fd interest).At P' fd := by
  unfold ConnTable.mod
  cases h with
  | absent hc he =>
    rw [if_neg (by rw [Map.contains_eq_false.mpr he]; exact Bool.false_ne_true)]
    exact .absent hc he
  | present hc he hold =>
    rw [if_pos (Map.contains_eq_true.mpr ⟨_, he⟩)]
    exact .present hc (Map.find_insert_same ..) (hP _ _ hc hold)

/-- The connection changes and its interest is registered anew. -/
theorem At.set_mod (h : t.At P fd) (hconn : t.conns.find fd = some conn)
    (hP : ∀ old, P fd conn old → P' fd conn' interest) :
    ((t.set fd conn').mod fd interest).At P' fd := by
  have hset : (t.set fd conn').At (fun _ c _ => c = conn' ∧ ∃ old, P fd conn old) fd :=
    h.set hconn fun old hold => ⟨rfl, old, hold⟩
  refine hset.mod fun c _ _ hc => ?_
  obtain ⟨rfl, old, hold⟩ := hc
  exact hP old hold

theorem sameOff_set_mod (t : ConnTable γ) (fd : Int) (conn : γ) (interest : Interest) :
    t.SameOff ((t.set fd conn).mod fd interest) fd :=
  (sameOff_set t fd conn).trans (sameOff_mod _ fd interest)

@[simp] theorem gone_mod : (t.mod fd interest).gone = t.gone := by
  unfold mod
  split <;> rfl

theorem holds_empty : (empty : ConnTable γ).Holds P G :=
  ⟨fun _ => .absent rfl rfl, fun _ hmem => absurd hmem List.not_mem_nil⟩

namespace Holds

/-- The rule for a change at one descriptor. -/
theorem update (h : t.Holds P G) (hsame : t.SameOff t' fd)
    (hoff : ∀ fd' conn interest, fd' ≠ fd → P fd' conn interest → P' fd' conn interest)
    (hat : t'.At P' fd) (hgone : ∀ conn ∈ t'.gone, G' conn) : t'.Holds P' G' := by
  refine ⟨fun fd' => ?_, hgone⟩
  by_cases hfd : fd' = fd
  · rw [hfd]
    exact hat
  · obtain ⟨hconns, hepoll⟩ := hsame fd' hfd
    cases h.live fd' with
    | absent hc he => exact .absent (hconns.trans hc) (hepoll.trans he)
    | present hc he hP => exact .present (hconns.trans hc) (hepoll.trans he) (hoff _ _ _ hfd hP)

theorem imp (h : t.Holds P G) (hlive : ∀ fd conn interest, P fd conn interest → P' fd conn interest)
    (hgone : ∀ conn, G conn → G' conn) : t.Holds P' G' := by
  refine ⟨fun fd => ?_, fun conn hconn => hgone conn (h.gone conn hconn)⟩
  cases h.live fd with
  | absent hc he => exact .absent hc he
  | present hc he hP => exact .present hc he (hlive _ _ _ hP)

theorem add (h : t.Holds P G) (hfree : ¬ t.epoll.contains fd = true) (hP : P fd conn .read) :
    (t.add fd conn).Holds P G := by
  have hepoll : t.epoll.find fd = none := Map.contains_eq_false.mp (Bool.eq_false_iff.mpr hfree)
  have hnone : t.conns.find fd = none := by
    cases h.live fd with
    | absent hc _ => exact hc
    | present _ he => exact absurd (hepoll.symm.trans he) nofun
  have hadd : t.add fd conn = ⟨t.conns.insert fd conn, t.epoll.insert fd .read, t.gone⟩ := by
    unfold ConnTable.add
    rw [Map.emplace_of_find_none hnone, Map.emplace_of_find_none hepoll]
  have hsame : t.SameOff (t.add fd conn) fd := by
    rw [hadd]
    exact fun _ hne => ⟨Map.find_insert_ne _ _ hne, Map.find_insert_ne _ _ hne⟩
  refine h.update hsame (fun _ _ _ _ => id) ?_ h.gone
  rw [hadd]
  exact .present (Map.find_insert_same ..) (Map.find_insert_same ..) hP

theorem set (h : t.Holds P G) (hconn : t.conns.find fd = some conn)
    (hP : ∀ interest, P fd conn interest → P fd conn' interest) : (t.set fd conn').Holds P G :=
  h.update (sameOff_set t fd conn') (fun _ _ _ _ => id) ((h.live fd).set hconn hP) h.gone

/-- Only the interest changes. -/
theorem mod (h : t.Holds P G)
    (hP : ∀ conn old, t.conns.find fd = some conn → P fd conn old → P fd conn interest) :
    (t.mod fd interest).Holds P G := by
  refine h.update (sameOff_mod t fd interest) (fun _ _ _ _ => id) ((h.live fd).mod hP) ?_
  rw [gone_mod]
  exact h.gone

theorem set_mod (h : t.Holds P G) (hconn : t.conns.find fd = some conn)
    (hP : ∀ old, P fd conn old → P fd conn' interest) :
    ((t.set fd conn').mod fd interest).Holds P G := by
  refine h.update (sameOff_set_mod t fd conn' interest) (fun _ _ _ _ => id)
    ((h.live fd).set_mod hconn hP) ?_
  rw [gone_mod]
  exact h.gone

theorem closeConnection (h : t.Holds P G) (hG : ∀ conn interest, P fd conn interest → G conn) :
    (t.closeConnection fd).Holds P G := by
  refine h.update (sameOff_closeConnection t fd) (fun _ _ _ _ => id) at_closeConnection ?_
  intro conn hmem
  rcases List.mem_append.mp hmem with hold | hnew
  · exact h.gone conn hold
  · obtain ⟨interest, _, hP⟩ := (h.live fd).of_find (Option.mem_toList.mp hnew)
    exact hG conn interest hP

/-- The connection has changed before it is closed. -/
theorem set_closeConnection (h : t.Holds P G) (hG : G conn') :
    ((t.set fd conn').closeConnection fd).Holds P G := by
  have hsame := (sameOff_set t fd conn').trans (sameOff_closeConnection _ fd)
  refine h.update hsame (fun _ _ _ _ => id) at_closeConnection ?_
  intro conn hmem
  rcases List.mem_append.mp hmem with hold | hnew
  · exact h.gone conn hold
  · have hfind := (Map.find_insert_same t.conns fd conn').symm.trans (Option.mem_toList.mp hnew)
    rwa [← Option.some.inj hfind]

end Holds

end ConnTable

end NfEngine
