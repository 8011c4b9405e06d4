-- SUMMARY: The ticks of a shard worker: when they come and how many of them can come in a span of time.
import NfEngine.Shard.ShardWorker

/-!
# Ticks

`processPacket` reads the time once in every iteration of its loop, `now`, and calls
`onTick` when `m_nextTick` has come. It then advances `m_nextTick` by the interval, and
when even that lies more than an interval back it starts anew from `now`. After a stall
the loop therefore catches up by at most two ticks.

The time of an iteration is its `now`, and of a tick that of its iteration: handling
events takes time that the loop does not see. Nothing below depends on the clock being
monotonic.
-/

namespace NfEngine

open Lib.Transition

/-! ## Paced times -/

/-- The first of the times is not before `start`, and each has an interval more to wait. -/
def Paced (interval : ℕ) : ℕ → List ℕ → Prop
  | _, [] => True
  | start, time :: times => start ≤ time ∧ Paced interval (start + interval) times

namespace Paced

variable {interval start : ℕ} {times : List ℕ}

theorem mono {start' : ℕ} (h : Paced interval start times) (hle : start' ≤ start) :
    Paced interval start' times := by
  induction times generalizing start start' with
  | nil => trivial
  | cons time times ih => exact ⟨hle.trans h.1, ih h.2 (Nat.add_le_add_right hle _)⟩

theorem le_get (h : Paced interval start times) (k : Fin times.length) :
    start + k * interval ≤ times.get k := by
  induction times generalizing start with
  | nil => exact k.elim0
  | cons time times ih =>
    refine Fin.cases ?_ (fun k => ?_) k
    · simpa using h.1
    · have hk := ih h.2 k
      rw [Nat.add_assoc, Nat.add_comm interval, ← Nat.succ_mul] at hk
      exact hk

/-- As many of the times as are up to `b` have had their intervals to wait. -/
theorem count_le (h : Paced interval start times) {b m : ℕ}
    (hcount : times.countP (· ≤ b) = m + 1) : start + m * interval ≤ b := by
  induction times generalizing start m with
  | nil => cases hcount
  | cons time times ih =>
    rw [List.countP_cons] at hcount
    split at hcount
    next hle =>
      -- the first counts: what the others have waited is one interval less
      cases m with
      | zero =>
        rw [Nat.zero_mul]
        exact h.1.trans (of_decide_eq_true hle)
      | succ m =>
        have hrest := ih h.2 (Nat.succ.inj hcount)
        rw [Nat.succ_mul]
        omega
    next =>
      have hrest := ih h.2 hcount
      omega

end Paced

/-! ## The tick handling -/

/-- `m_nextTick`, and the times of the iterations in which `onTick` was called. -/
structure TickLoop where
  nextTick : ℕ
  ticks : List ℕ
  deriving DecidableEq, Repr

namespace TickLoop

/-- In front of the loop, at time `s`. -/
def start (interval s : ℕ) : TickLoop := ⟨s + interval, []⟩

/-- The tick handling of the iteration that has read `now`. -/
def iteration (interval : ℕ) (t : TickLoop) (now : ℕ) : TickLoop :=
  if t.nextTick ≤ now then
    let nextTick := t.nextTick + interval
    ⟨if nextTick + interval < now then now + interval else nextTick, t.ticks ++ [now]⟩
  else
    t

/-- The iterations that have read these times, one after the other. -/
def iterate (interval : ℕ) (t : TickLoop) (nows : List ℕ) : TickLoop := nows.foldl (iteration interval) t

variable {interval now : ℕ} {t : TickLoop}

/-- An iteration does not tick, or it ticks, advances by an interval at least and is not
    more than an interval behind then. -/
theorem iteration_cases (interval : ℕ) (t : TickLoop) (now : ℕ) :
    now < t.nextTick ∧ iteration interval t now = t ∨
      t.nextTick ≤ now ∧ (iteration interval t now).ticks = t.ticks ++ [now] ∧
        t.nextTick + interval ≤ (iteration interval t now).nextTick ∧
        now ≤ (iteration interval t now).nextTick + interval := by
  unfold iteration
  split
  next hdue =>
    refine .inr ⟨hdue, rfl, ?_, ?_⟩
    · dsimp only
      split <;> omega
    · dsimp only
      split <;> omega
  next hearly => exact .inl ⟨Nat.not_le.mp hearly, rfl⟩

theorem now_le_iteration (interval : ℕ) (t : TickLoop) (now : ℕ) :
    now ≤ (iteration interval t now).nextTick + interval := by
  obtain ⟨hearly, heq⟩ | ⟨_, _, _, hnow⟩ := iteration_cases interval t now
  · rw [heq]
    omega
  · exact hnow

/-- The ticks of further iterations are paced from `m_nextTick` on. -/
theorem iterate_ticks (interval : ℕ) (t : TickLoop) (nows : List ℕ) :
    ∃ new, (iterate interval t nows).ticks = t.ticks ++ new ∧ Paced interval t.nextTick new := by
  induction nows generalizing t with
  | nil => exact ⟨[], (List.append_nil _).symm, trivial⟩
  | cons now nows ih =>
    obtain ⟨new, hticks, hpaced⟩ := ih (iteration interval t now)
    obtain ⟨_, heq⟩ | ⟨hdue, hticked, hadvance, _⟩ := iteration_cases interval t now
    · rw [heq] at hticks hpaced
      refine ⟨new, ?_, hpaced⟩
      rw [iterate, List.foldl_cons, heq]
      exact hticks
    · refine ⟨now :: new, ?_, hdue, hpaced.mono hadvance⟩
      rw [hticked, List.append_assoc] at hticks
      exact hticks

/-- At most so many of the ticks behind an iteration come up to time `b`. -/
theorem countP_ticks_le (hinterval : 0 < interval) (t : TickLoop) (a b : ℕ) (later : List ℕ) :
    ((iterate interval (iteration interval t a) later).ticks.drop
        (iteration interval t a).ticks.length).countP (· ≤ b) ≤ (b - a) / interval + 2 := by
  obtain ⟨new, hticks, hpaced⟩ := iterate_ticks interval (iteration interval t a) later
  have hnow := now_le_iteration interval t a
  rw [hticks, List.drop_left]
  generalize hcount : new.countP (· ≤ b) = count
  match count with
  | 0 => exact Nat.zero_le _
  | 1 => exact (show 1 ≤ 2 by decide).trans (Nat.le_add_left 2 _)
  | m + 2 =>
    have hwaited := hpaced.count_le hcount
    rw [Nat.succ_mul] at hwaited
    have hm : m ≤ (b - a) / interval := by
      rw [Nat.le_div_iff_mul_le hinterval]
      omega
    exact Nat.add_le_add_right hm 2

/-- For all times that the loop reads, however it stalls: `m_nextTick` does not go back and
    goes ahead by an interval at least with every tick; the ticks come no earlier than one
    interval after the other; no iteration leaves `m_nextTick` more than an interval behind;
    and behind an iteration at time `a` at most `(b - a) / interval + 2` ticks come up to
    time `b`. -/
theorem ticks_bounded (hinterval : 0 < interval) (s : ℕ) (nows : List ℕ) :
    (∀ now, (iterate interval (start interval s) nows).nextTick ≤
          (iterate interval (start interval s) (nows ++ [now])).nextTick ∧
        ((iterate interval (start interval s) (nows ++ [now])).ticks ≠
            (iterate interval (start interval s) nows).ticks →
          (iterate interval (start interval s) nows).nextTick + interval ≤
            (iterate interval (start interval s) (nows ++ [now])).nextTick) ∧
        now ≤ (iterate interval (start interval s) (nows ++ [now])).nextTick + interval) ∧
      (∀ k : Fin (iterate interval (start interval s) nows).ticks.length,
        s + (k + 1) * interval ≤ (iterate interval (start interval s) nows).ticks.get k) ∧
      ∀ a b later,
        ((iterate interval (start interval s) (nows ++ a :: later)).ticks.drop
            (iterate interval (start interval s) (nows ++ [a])).ticks.length).countP (· ≤ b) ≤
          (b - a) / interval + 2 := by
  have hconcat : ∀ now, iterate interval (start interval s) (nows ++ [now]) =
      iteration interval (iterate interval (start interval s) nows) now := by
    intro now
    rw [iterate, List.foldl_concat]
    rfl
  refine ⟨?_, ?_, ?_⟩
  · intro now
    rw [hconcat]
    have hnow := now_le_iteration interval (iterate interval (start interval s) nows) now
    obtain ⟨_, heq⟩ | ⟨_, _, hadvance, _⟩ :=
      iteration_cases interval (iterate interval (start interval s) nows) now
    · rw [heq] at hnow ⊢
      exact ⟨Nat.le_refl _, fun hne => absurd rfl hne, hnow⟩
    · exact ⟨(Nat.le_add_right _ _).trans hadvance, fun _ => hadvance, hnow⟩
  · obtain ⟨new, hticks, hpaced⟩ := iterate_ticks interval (start interval s) nows
    rw [hticks]
    intro k
    have hk := hpaced.le_get k
    rw [Nat.succ_mul, Nat.add_comm (_ * _), ← Nat.add_assoc]
    exact hk
  · intro a b later
    rw [hconcat]
    have hsplit : iterate interval (start interval s) (nows ++ a :: later) =
        iterate interval (iteration interval (iterate interval (start interval s) nows) a) later := by
      rw [iterate, List.foldl_append, List.foldl_cons]
      rfl
    rw [hsplit]
    exact countP_ticks_le hinterval _ a b later

/-- A stall of five seconds: the loop ticks at once and starts anew. -/
theorem ticks_bounded_stall :
    (iterate 1500 (start 1500 0) [1500, 6500]).ticks = [1500, 6500] ∧
      (iterate 1500 (start 1500 0) [1500, 6500]).nextTick = 8000 ∧
      ((iterate 1500 (start 1500 0) ([1500, 6500] ++ 6600 :: [8000, 9500])).ticks.drop
          (iterate 1500 (start 1500 0) ([1500, 6500] ++ [6600])).ticks.length).countP (· ≤ 9500) ≤
        (9500 - 6600) / 1500 + 2 :=
  ⟨by decide, by decide, (ticks_bounded (show 0 < 1500 by decide) 0 [1500, 6500]).2.2 6600 9500 [8000, 9500]⟩

end TickLoop

/-! ## The worker -/

namespace ShardWorker

variable {ε α : Type*}

/-- The tick handling of the worker is that of the loop. -/
theorem nextTickAfter_eq (now : ℕ) (t : TickLoop) :
    nextTickAfter now t.nextTick = (t.iteration tickInterval now).nextTick := by
  unfold nextTickAfter TickLoop.iteration
  split <;> rfl

/-- The time that the current iteration has read, or the time it would read now. -/
def loopTime (s : ShardWorker ε α) : ℕ :=
  match s.pc with
  | .acting now => now
  | _ => s.clock

/-- The worker was started at a time and has read these times since, in order. -/
structure Ticking (s : ShardWorker ε α) (start : ℕ) (nows : List ℕ) : Prop where
  ordered : (start :: nows).Pairwise (· ≤ ·)
  le_loopTime : ∀ time ∈ start :: nows, time ≤ s.loopTime
  loopTime_le : s.loopTime ≤ s.clock
  nextTick : s.nextTick = (TickLoop.iterate tickInterval (.start tickInterval start) nows).nextTick

namespace Ticking

variable {s s' : ShardWorker ε α} {start : ℕ} {nows : List ℕ}

/-- A step that lets `m_nextTick` alone, while the time of the loop does not go back. -/
theorem keep (h : s.Ticking start nows) (htick : s'.nextTick = s.nextTick)
    (htime : s.loopTime ≤ s'.loopTime) (hclock : s'.loopTime ≤ s'.clock) : s'.Ticking start nows where
  ordered := h.ordered
  le_loopTime time hmem := (h.le_loopTime time hmem).trans htime
  loopTime_le := hclock
  nextTick := htick.trans h.nextTick

theorem loopTime_notified (s : ShardWorker ε α) (n m : ℕ) :
    { s with pc := notified s.pc, notifying := n, stopping := m }.loopTime = s.loopTime := by
  unfold loopTime notified
  cases s.pc <;> rfl

/-- Time passes, and an iteration keeps the time that it has read. -/
theorem pass (h : s.Ticking start nows) {later : ℕ} (hlater : s.clock ≤ later) :
    { s with clock := later }.Ticking start nows := by
  have hle := h.loopTime_le
  unfold loopTime at hle
  cases hpc : s.pc with
  | acting now =>
    rw [hpc] at hle
    refine h.keep rfl ?_ ?_
    · simp only [loopTime, hpc, Nat.le_refl]
    · simp only [loopTime]
      exact hle.trans hlater
  | _ =>
    refine h.keep rfl ?_ ?_
    · simpa only [loopTime, hpc] using hlater
    · simp only [loopTime, Nat.le_refl]

/-- The end of an iteration that has read `now`. -/
theorem tick (h : s.Ticking start nows) {now : ℕ} (hpc : s.pc = .acting now) :
    { s with nextTick := nextTickAfter now s.nextTick, pc := .top }.Ticking start (nows ++ [now]) := by
  have htime : s.loopTime = now := by rw [loopTime, hpc]
  have hle := h.le_loopTime
  have hclock := h.loopTime_le
  rw [htime] at hle hclock
  refine ⟨?_, ?_, Nat.le_refl _, ?_⟩
  · rw [← List.cons_append]
    refine List.pairwise_append.mpr ⟨h.ordered, List.pairwise_singleton _ _, ?_⟩
    intro time hmem last hlast
    rw [List.mem_singleton.mp hlast]
    exact hle time hmem
  · intro time hmem
    rw [← List.cons_append] at hmem
    rcases List.mem_append.mp hmem with hold | hnew
    · exact (hle time hold).trans hclock
    · rw [List.mem_singleton.mp hnew]
      exact hclock
  · change nextTickAfter now s.nextTick = _
    rw [h.nextTick, nextTickAfter_eq, TickLoop.iterate, TickLoop.iterate, List.foldl_concat]

end Ticking

theorem ticking_start (s : ShardWorker ε α) :
    { s with running := true, nextTick := s.clock + tickInterval, pc := .top }.Ticking s.clock [] where
  ordered := List.pairwise_singleton _ _
  le_loopTime _ hmem := Nat.le_of_eq (List.mem_singleton.mp hmem)
  loopTime_le := Nat.le_refl _
  nextTick := rfl

theorem clock_le_of_step [DecidableEq ε] {s s' : ShardWorker ε α} {a : Act ε α}
    (hstep : s.step a = some s') : s.clock ≤ s'.clock := by
  cases moves_of_step hstep with
  | pass later =>
    have hlater : s.clock ≤ later := by simpa [step] using hstep
    exact hlater
  | _ => exact Nat.le_refl _

theorem Ticking.step [DecidableEq ε] {s s' : ShardWorker ε α} {a : Act ε α} {start : ℕ} {nows : List ℕ}
    (h : s.Ticking start nows) (hstep : s.step a = some s') : ∃ start nows, s'.Ticking start nows := by
  have hclock := clock_le_of_step hstep
  cases moves_of_step hstep with
  | start => exact ⟨_, _, ticking_start s⟩
  | tick hpc => exact ⟨_, _, h.tick hpc⟩
  | pass later => exact ⟨_, _, h.pass hclock⟩
  | act | push | stop => exact ⟨_, _, h.keep rfl (Nat.le_refl _) h.loopTime_le⟩
  | notify =>
    have htime := loopTime_notified s (s.notifying - 1) s.stopping
    exact ⟨_, _, h.keep rfl htime.ge (htime.le.trans h.loopTime_le)⟩
  | stopNotify =>
    have htime := loopTime_notified s s.notifying (s.stopping - 1)
    exact ⟨_, _, h.keep rfl htime.ge (htime.le.trans h.loopTime_le)⟩
  -- outside of an iteration, and where an iteration reads the clock
  | _ => exact ⟨_, _, h.keep rfl h.loopTime_le (Nat.le_refl _)⟩

/-- In every run the worker has not started, or `m_nextTick` is what the loop has made of the
    times that the worker has read, and these never go back. -/
theorem ticking_of_run [DecidableEq ε] {as : List (Act ε α)} {s : ShardWorker ε α}
    (hrun : run step (init ε α) as = some s) :
    s.pc = .idle ∨ ∃ start nows, s.Ticking start nows := by
  refine run_induct (I := fun s => s.pc = .idle ∨ ∃ start nows, s.Ticking start nows) ?_ (.inl rfl)
    (along_true _ _) hrun
  rintro s a s' (hidle | ⟨start, nows, h⟩) _ hstep
  · cases moves_of_step hstep with
    | start => exact .inr ⟨_, _, ticking_start s⟩
    | push | stop | pass => exact .inl hidle
    | notify | stopNotify => exact .inl (by simp [hidle, notified])
    | _ => simp_all
  · exact .inr (h.step hstep)

end ShardWorker

end NfEngine
