-- SUMMARY: Every call of marketSnapshot returns, once and with the answers to its own promises: its thread is never stuck and has a bounded number of steps to make.
import Mathlib.Algebra.Order.BigOperators.Group.Finset
import NfEngine.Core.MarketSnapshot
import NfEngine.Lib.Map

/-!
# The calls of marketSnapshot return

A thread in `marketSnapshot` can always make its next step: a push is never refused, the
notification that it owes a shard has not been spent by another thread, and a future that
it waits for exists, so that it is ready, broken, or the wait times out. `Caller.left`
counts the steps that it has left, which no other thread changes. So a call returns after
at most three steps of its own thread for each shard and two more, whatever the other
threads do in between.
-/

namespace NfEngine.CoreControl

open Lib Lib.Transition

variable {n m : ℕ} {ctx : Fin n → MarketContext} {s s' : System n m} {a : Act n m} {j : Fin m} {call : ℕ}

/-- The thread that makes a step of a call. -/
def Act.caller? : Act n m → Option (Fin m)
  | .begin j | .dispatch j | .notify j | .await j _ | .finish j => some j
  | _ => none

/-- The steps that a thread has left in its call, at most. -/
def Caller.left (n : ℕ) : Caller → ℕ
  | .idle => 0
  | .dispatch _ i => 2 * (n - i) + n + 2
  | .notify _ i => 2 * (n - i) + n + 1
  | .wait _ i _ => n - i + 1

theorem Caller.left_pos {caller : Caller} (h : caller.call? = some call) : 0 < caller.left n := by
  cases caller with
  | idle => cases h
  | dispatch | notify | wait => exact Nat.succ_pos _

theorem Caller.left_le (caller : Caller) : caller.left n ≤ 3 * n + 2 := by
  cases caller <;> simp only [left] <;> omega

/-! ## A thread is never stuck -/

/-- Whether the thread is about to notify the shard. -/
def Caller.notifies (k : ℕ) : Caller → ℕ
  | .notify _ i => if i = k then 1 else 0
  | _ => 0

/-- The promises that a thread has made exist. -/
def System.Made (s : System n m) : Caller → Prop
  | .idle => True
  | .dispatch call i => ∀ k : Fin n, k.val < i → s.futures ⟨call, k⟩ ≠ none
  | .notify call i => i < n ∧ ∀ k : Fin n, k.val ≤ i → s.futures ⟨call, k⟩ ≠ none
  | .wait call _ _ => ∀ k : Fin n, s.futures ⟨call, k⟩ ≠ none

/-- The notifications that the calls and the other threads owe a shard. -/
def System.owes (s : System n m) (k : Fin n) : ℕ := s.others k + ∑ j, (s.callers j).notifies k

/-- Each notification that a shard is owed has a thread that owes it, and a call that has begun
    and not returned has a thread that is in it. -/
structure Going (s : System n m) : Prop where
  made : ∀ j, s.Made (s.callers j)
  notifying : ∀ k, (s.shards k).notifying = s.owes k
  calls : ∀ call < s.calls, call ∈ s.reports.map Report.call ∨ ∃ j, (s.callers j).call? = some call

theorem going_init : Going (init n m) where
  made _ := trivial
  notifying _ := by simp [init, ShardWorker.init, System.owes, Caller.notifies]
  calls call hcall := absurd hcall (Nat.not_lt_zero call)

/-- A future that exists stays. -/
theorem futures_of_moves (hmoves : Moves ctx s a s') {promise : DumpPromise n}
    (h : s.futures promise ≠ none) : s'.futures promise ≠ none := by
  cases hmoves with
  | dispatch | fulfill =>
    simp only [Function.update_apply]
    split
    next => exact Option.some_ne_none _
    next => exact h
  | abandon hpc =>
    rcases System.abandoned_cases promise hpc with heq | ⟨heq, -, -⟩
    · exact fun hnone => h (heq.symm.trans hnone)
    · exact fun hnone => Option.some_ne_none _ (heq.symm.trans hnone)
  | _ => exact h

theorem System.Made.mono {caller : Caller} (h : s.Made caller)
    (hfutures : ∀ promise, s.futures promise ≠ none → s'.futures promise ≠ none) : s'.Made caller := by
  cases caller with
  | idle => trivial
  | dispatch call i => exact fun k hk => hfutures _ (h k hk)
  | notify call i => exact ⟨h.1, fun k hk => hfutures _ (h.2 k hk)⟩
  | wait call i markets => exact fun k => hfutures _ (h k)

theorem Going.made_step (h : Going s) (hmoves : Moves ctx s a s') (i : Fin m) : s'.Made (s'.callers i) := by
  have hold : ∀ caller, s.Made caller → s'.Made caller := fun _ hmade =>
    hmade.mono fun _ => futures_of_moves hmoves
  -- the thread that moves, and the others as they were
  have hother : ∀ {j caller}, s'.callers = Function.update s.callers j caller → s'.Made caller →
      s'.Made (s'.callers i) := by
    intro j caller hcallers hmade
    rw [hcallers, Function.update_apply]
    split
    next => exact hmade
    next => exact hold _ (h.made i)
  cases hmoves with
  | begin hcaller => exact hother rfl fun k hk => absurd hk (Nat.not_lt_zero _)
  | @dispatch j call k shard hcaller hshard =>
    have hmade := h.made j
    rw [hcaller] at hmade
    refine hother rfl ⟨k.isLt, fun l hl => ?_⟩
    rcases hl.lt_or_eq with hlt | heq
    · exact hold (.dispatch call k) hmade l hlt
    · simp [Fin.ext heq]
  | @turn j call i hcaller hi =>
    have hmade := h.made j
    rw [hcaller] at hmade
    exact hother rfl fun k => hmade k (k.isLt.trans_le hi)
  | @notify j call k shard hcaller hshard =>
    have hmade := h.made j
    rw [hcaller] at hmade
    exact hother rfl fun l hl => hmade.2 l (Nat.le_of_lt_succ hl)
  | @get j call k markets info hcaller hfuture =>
    have hmade := h.made j
    rw [hcaller] at hmade
    exact hother rfl hmade
  | @skip j timeout call k markets hcaller =>
    have hmade := h.made j
    rw [hcaller] at hmade
    exact hother rfl hmade
  | finish hcaller hi => exact hother rfl trivial
  | shard | otherPush | otherNotify | fulfill | terminate | abandon => exact hold _ (h.made i)

/-- The notifications that a shard is owed, after a step of the shard. -/
def owedAfter (owed : ℕ) : ShardWorker.Act (DumpEvent n) Action → ℕ
  | .push _ => owed + 1
  | .notify => owed - 1
  | _ => owed

theorem notifying_of_step {shard shard' : ShardWorker (DumpEvent n) Action}
    {b : ShardWorker.Act (DumpEvent n) Action} (hshard : shard.step b = some shard') :
    shard'.notifying = owedAfter shard.notifying b := by
  cases ShardWorker.moves_of_step hshard with
  | _ => rfl

theorem owedAfter_of_ofShard {shard : ShardWorker (DumpEvent n) Action}
    {b : ShardWorker.Act (DumpEvent n) Action} (h : System.ofShard shard b = true) (owed : ℕ) :
    owedAfter owed b = owed := by
  cases b with
  | push | notify => cases h
  | _ => rfl

theorem notifying_update {l : Fin n} {shard : ShardWorker (DumpEvent n) Action}
    {b : ShardWorker.Act (DumpEvent n) Action} (hshard : (s.shards l).step b = some shard) (k : Fin n) :
    (Function.update s.shards l shard k).notifying =
      if k = l then owedAfter (s.shards k).notifying b else (s.shards k).notifying := by
  rw [Function.update_apply]
  split
  next heq => rw [notifying_of_step hshard, heq]
  next => rfl

/-- A step of a shard, with what is owed to it. -/
theorem Going.notifying_shard (h : Going s) {k l : Fin n} {shard : ShardWorker (DumpEvent n) Action}
    {b : ShardWorker.Act (DumpEvent n) Action} (hshard : (s.shards l).step b = some shard)
    (hshards : s'.shards = Function.update s.shards l shard)
    (howes : s'.owes k = if k = l then owedAfter (s.owes k) b else s.owes k) :
    (s'.shards k).notifying = s'.owes k := by
  rw [hshards, notifying_update hshard k, howes, h.notifying k]

/-- A thread goes on from one place in its call to another. -/
theorem owes_setCaller {caller : Caller} (hcallers : s'.callers = Function.update s.callers j caller)
    (hothers : s'.others = s.others) (k : Fin n) :
    s'.owes k + (s.callers j).notifies k = s.owes k + caller.notifies k := by
  have hsum := sum_update_add (Caller.notifies k) s.callers j caller
  rw [System.owes, System.owes, hcallers, hothers]
  omega

/-- A thread goes on with a step of a shard. -/
theorem Going.notifying_caller (h : Going s) {k l : Fin n} {caller : Caller}
    {shard : ShardWorker (DumpEvent n) Action} {b : ShardWorker.Act (DumpEvent n) Action}
    (hshard : (s.shards l).step b = some shard)
    (hshards : s'.shards = Function.update s.shards l shard)
    (hcallers : s'.callers = Function.update s.callers j caller) (hothers : s'.others = s.others)
    (howed : ∀ owed, owed + (s.callers j).notifies k = s.owes k + caller.notifies k →
      owed = if k = l then owedAfter (s.owes k) b else s.owes k) :
    (s'.shards k).notifying = s'.owes k :=
  h.notifying_shard hshard hshards (howed _ (owes_setCaller hcallers hothers k))

theorem Going.notifying_step (h : Going s) (hmoves : Moves ctx s a s') (k : Fin n) :
    (s'.shards k).notifying = s'.owes k := by
  -- a thread that has not owed a notification and does not owe one now
  have hquiet : ∀ {j caller}, s'.callers = Function.update s.callers j caller →
      s'.others = s.others → s'.shards = s.shards → (s.callers j).notifies k = 0 →
      caller.notifies k = 0 → (s'.shards k).notifying = s'.owes k := by
    intro j caller hcallers hothers hshards hbefore hafter
    have howes := owes_setCaller hcallers hothers k
    have hk := h.notifying k
    rw [hshards]
    omega
  cases hmoves with
  | begin hcaller | turn hcaller | get hcaller | skip hcaller | finish hcaller =>
    exact hquiet rfl rfl rfl (by rw [hcaller]; rfl) rfl
  | dispatch hcaller hshard =>
    refine h.notifying_caller hshard rfl rfl rfl fun owed howed => ?_
    simp only [hcaller, Caller.notifies, owedAfter, Fin.ext_iff] at howed ⊢
    split_ifs at howed ⊢ <;> omega
  | notify hcaller hshard =>
    refine h.notifying_caller hshard rfl rfl rfl fun owed howed => ?_
    simp only [hcaller, Caller.notifies, owedAfter, Fin.ext_iff] at howed ⊢
    split_ifs at howed ⊢ <;> omega
  | shard hof hshard =>
    refine h.notifying_shard hshard rfl ?_
    rw [owedAfter_of_ofShard hof, ite_self]
    rfl
  | otherPush hshard =>
    refine h.notifying_shard hshard rfl ?_
    simp only [System.owes, System.setShard, Function.update_apply, owedAfter]
    split_ifs with heq
    · subst heq
      omega
    · rfl
  | otherNotify hothers hshard =>
    refine h.notifying_shard hshard rfl ?_
    simp only [System.owes, System.setShard, Function.update_apply, owedAfter]
    split_ifs with heq
    · subst heq
      omega
    · rfl
  | fulfill hpc hsnapshot hfuture hshard =>
    refine h.notifying_shard hshard rfl ?_
    simp only [owedAfter, ite_self]
    rfl
  | terminate | abandon => exact h.notifying k

theorem Going.calls_step (h : Going s) (hmoves : Moves ctx s a s') (hlt : call < s'.calls) :
    call ∈ s'.reports.map Report.call ∨ ∃ j, (s'.callers j).call? = some call := by
  -- the thread that moves stays in its call
  have hstay : ∀ {j caller}, s'.callers = Function.update s.callers j caller →
      caller.call? = (s.callers j).call? → s'.calls = s.calls → s'.reports = s.reports →
      call ∈ s'.reports.map Report.call ∨ ∃ j, (s'.callers j).call? = some call := by
    intro j caller hcallers hsame hcalls hreports
    rw [hreports]
    refine (h.calls call (hcalls ▸ hlt)).imp_right fun ⟨i, hi⟩ => ⟨i, ?_⟩
    rw [hcallers, Function.update_apply]
    split
    next heq => rw [hsame, ← heq, hi]
    next => exact hi
  cases hmoves with
  | @begin j hcaller =>
    rcases (Nat.lt_succ_iff.mp hlt).lt_or_eq with hold | rfl
    · refine (h.calls call hold).imp_right fun ⟨i, hi⟩ => ⟨i, ?_⟩
      have hne : i ≠ j := by
        rintro rfl
        rw [hcaller] at hi
        cases hi
      exact (congrArg Caller.call? (Function.update_of_ne hne _ _)).trans hi
    · have hself : (Function.update s.callers j (.dispatch s.calls 0) j).call? = some s.calls := by
        rw [Function.update_self]
        rfl
      exact .inr ⟨j, hself⟩
  | @finish j call' i markets hcaller hi =>
    rw [List.map_append, List.mem_append, or_assoc]
    refine (h.calls call hlt).imp_right fun ⟨i, hcall⟩ => ?_
    by_cases hij : i = j
    · subst hij
      rw [hcaller] at hcall
      cases hcall
      exact .inl (List.mem_singleton_self _)
    · exact .inr ⟨i, (congrArg Caller.call? (Function.update_of_ne hij _ _)).trans hcall⟩
  | dispatch hcaller | turn hcaller | notify hcaller | get hcaller | skip hcaller =>
    exact hstay rfl (by rw [hcaller]; rfl) rfl rfl
  | shard | otherPush | otherNotify | fulfill | terminate | abandon => exact h.calls call hlt

theorem going_run {acts : List (Act n m)} (hrun : run (step ctx) (init n m) acts = some s) : Going s := by
  refine run_induct (fun s a s' h _ hstep => ?_) going_init (along_true _ _) hrun
  have hmoves := (moves_of_step hstep).2
  exact ⟨h.made_step hmoves, h.notifying_step hmoves, fun _ => h.calls_step hmoves⟩

theorem exists_dispatch {i : ℕ} (hcaller : s.callers j = .dispatch call i) : ∃ s', s.dispatch j = some s' := by
  unfold System.dispatch
  simp only [hcaller]
  split
  · exact ⟨_, rfl⟩
  · exact ⟨_, rfl⟩

/-- The shard is owed this thread's notification. -/
theorem Going.exists_notify (h : Going s) {i : ℕ} (hcaller : s.callers j = .notify call i) :
    ∃ s', s.notify j = some s' := by
  have hmade := h.made j
  rw [hcaller] at hmade
  have hone : (s.callers j).notifies i = 1 := by
    rw [hcaller]
    exact if_pos rfl
  have hle := Finset.single_le_sum (f := fun j => (s.callers j).notifies i) (fun _ _ => Nat.zero_le _)
    (Finset.mem_univ j)
  have hpos : 0 < (s.shards ⟨i, hmade.1⟩).notifying := by
    rw [h.notifying, System.owes]
    simp only at hle ⊢
    omega
  unfold System.notify
  simp only [hcaller, hmade.1, dif_pos, ShardWorker.step, hpos, if_true, Option.map_some]
  exact ⟨_, rfl⟩

/-- A future that is not ready makes the wait time out, or throws. -/
theorem Going.exists_await (h : Going s) {i : ℕ} {markets : List MarketInfo}
    (hcaller : s.callers j = .wait call i markets) (hi : i < n) : ∃ timeout s', s.await j timeout = some s' := by
  have hmade := h.made j
  rw [hcaller] at hmade
  unfold System.await
  simp only [hcaller, hi, dif_pos]
  cases hfuture : s.futures ⟨call, i, hi⟩ with
  | none => exact absurd hfuture (hmade ⟨i, hi⟩)
  | some future =>
    cases future with
    | pending => exact ⟨true, _, rfl⟩
    | ready info => exact ⟨false, _, rfl⟩
    | broken => exact ⟨false, _, rfl⟩

/-- A thread in a call can make a step of it. -/
theorem Going.exists_step (h : Going s) (halive : s.terminated = false)
    (hcall : (s.callers j).call? = some call) : ∃ a s', a.caller? = some j ∧ step ctx s a = some s' := by
  unfold step
  rw [halive]
  cases hcaller : s.callers j with
  | idle =>
    rw [hcaller] at hcall
    cases hcall
  | dispatch call i =>
    obtain ⟨s', hs'⟩ := exists_dispatch hcaller
    exact ⟨.dispatch j, s', rfl, hs'⟩
  | notify call i =>
    obtain ⟨s', hs'⟩ := h.exists_notify hcaller
    exact ⟨.notify j, s', rfl, hs'⟩
  | wait call i markets =>
    by_cases hi : i < n
    · obtain ⟨timeout, s', hs'⟩ := h.exists_await hcaller hi
      exact ⟨.await j timeout, s', rfl, hs'⟩
    · have hfinish : ∃ s', s.finish j = some s' := by
        unfold System.finish
        simp only [hcaller, if_neg hi]
        exact ⟨_, rfl⟩
      obtain ⟨s', hs'⟩ := hfinish
      exact ⟨.finish j, s', rfl, hs'⟩

/-! ## A call is bounded -/

theorem callers_of_moves (hmoves : Moves ctx s a s') (ha : a.caller? ≠ some j) :
    s'.callers j = s.callers j := by
  cases hmoves with
  | begin | dispatch | turn | notify | get | skip | finish =>
    refine Function.update_of_ne ?_ _ _
    rintro rfl
    exact ha rfl
  | shard | otherPush | otherNotify | fulfill | terminate | abandon => rfl

theorem reports_of_moves (hmoves : Moves ctx s a s') : s.reports ⊆ s'.reports := by
  cases hmoves with
  | finish => exact List.subset_append_left _ _
  | _ => exact List.Subset.refl _

/-- A step of its own takes a thread further in its call, or the call returns. -/
theorem left_of_moves (hmoves : Moves ctx s a s') (ha : a.caller? = some j)
    (hcall : (s.callers j).call? = some call) :
    call ∈ s'.reports.map Report.call ∨
      ((s'.callers j).call? = some call ∧ (s'.callers j).left n < (s.callers j).left n) := by
  -- the place where the thread stands afterwards
  have hgo : ∀ {caller caller'}, s.callers j = caller → s'.callers = Function.update s.callers j caller' →
      caller'.call? = caller.call? → caller'.left n < caller.left n →
      (s'.callers j).call? = some call ∧ (s'.callers j).left n < (s.callers j).left n := by
    intro caller caller' hbefore hafter hsame hlt
    rw [hafter, Function.update_self, hbefore, hsame, ← hbefore]
    exact ⟨hcall, hbefore ▸ hlt⟩
  cases hmoves with
  | begin hcaller =>
    cases ha
    rw [hcaller] at hcall
    cases hcall
  | dispatch hcaller =>
    cases ha
    exact .inr (hgo hcaller rfl rfl (Nat.lt_succ_self _))
  | turn hcaller hi =>
    cases ha
    refine .inr (hgo hcaller rfl rfl ?_)
    simp only [Caller.left]
    omega
  | @notify _ _ k _ hcaller =>
    cases ha
    refine .inr (hgo hcaller rfl rfl ?_)
    have hk := k.isLt
    simp only [Caller.left]
    omega
  | @get _ _ k _ _ hcaller =>
    cases ha
    refine .inr (hgo hcaller rfl rfl ?_)
    have hk := k.isLt
    simp only [Caller.left]
    omega
  | @skip _ _ _ k _ hcaller =>
    cases ha
    refine .inr (hgo hcaller rfl rfl ?_)
    have hk := k.isLt
    simp only [Caller.left]
    omega
  | finish hcaller hi =>
    cases ha
    rw [hcaller] at hcall
    cases hcall
    exact .inl (by simp)
  | shard | otherPush | otherNotify | fulfill | terminate | abandon => cases ha

/-- However the threads go on, a call has returned when its thread has made the steps that it had
    left. -/
theorem reported_of_run (hcall : (s.callers j).call? = some call) {later : List (Act n m)}
    (hrun : run (step ctx) s later = some s')
    (hsteps : 3 * n + 2 ≤ later.countP fun a => a.caller? = some j) :
    call ∈ s'.reports.map Report.call := by
  have hleft : call ∈ s'.reports.map Report.call ∨ ((s'.callers j).call? = some call ∧
      (s'.callers j).left n + later.countP (fun a => a.caller? = some j) ≤ (s.callers j).left n) := by
    refine run_induct_trace (I := fun later s' => call ∈ s'.reports.map Report.call ∨
      ((s'.callers j).call? = some call ∧ (s'.callers j).left n +
        later.countP (fun a => a.caller? = some j) ≤ (s.callers j).left n)) (.inr ⟨hcall, le_rfl⟩) ?_ hrun
    intro later s₁ a s₂ h hstep
    have hmoves := (moves_of_step hstep).2
    rcases h with hreported | ⟨hin, hle⟩
    · exact .inl (List.map_subset _ (reports_of_moves hmoves) hreported)
    · rw [List.countP_append, List.countP_singleton]
      by_cases ha : a.caller? = some j
      · refine (left_of_moves hmoves ha hin).imp_right fun ⟨hstill, hlt⟩ => ⟨hstill, ?_⟩
        simp only [ha, decide_true, if_true]
        omega
      · rw [callers_of_moves hmoves ha]
        simp only [ha, decide_false, Bool.false_eq_true, if_false, add_zero]
        exact .inr ⟨hin, hle⟩
  refine hleft.resolve_right fun ⟨hin, hle⟩ => ?_
  have hpos := Caller.left_pos (n := n) hin
  have hbound := (s.callers j).left_le (n := n)
  omega

/-! ## The answers of a call -/

/-- However the calls of `marketSnapshot` interleave with each other, with the shards and with
    their shutdown, no promise is fulfilled twice, and every call returns once: it never returns
    twice, and until it returns its thread is in it, can make a step and has at most three steps
    for each shard and two more to make. It returns snapshots of distinct shards in the order of
    the shards, each made by its shard for this very call, and only the shards it gave up waiting
    for are missing. -/
theorem market_snapshot_own_answers {acts : List (Act n m)}
    (hrun : run (step ctx) (init n m) acts = some s) :
    s.terminated = false ∧ (s.reports.map Report.call).Nodup ∧
      (∀ call < s.calls, call ∈ s.reports.map Report.call ∨ ∃ j, (s.callers j).call? = some call) ∧
      (∀ j call, (s.callers j).call? = some call →
        (∃ a s', a.caller? = some j ∧ step ctx s a = some s') ∧
        ∀ later s', run (step ctx) s later = some s' →
          3 * n + 2 ≤ (later.countP fun a => a.caller? = some j) → call ∈ s'.reports.map Report.call) ∧
      ∀ report ∈ s.reports, ∃ answered : List (Fin n), answered.Pairwise (· < ·) ∧
        List.Forall₂ (fun k info =>
          (⟨report.call, k⟩, info) ∈ s.fulfilled ∧ (ctx k).Snapshot info) answered report.markets ∧
        ∀ k ∉ answered, ⟨report.call, k⟩ ∈ s.skipped := by
  have h := inv_run hrun
  have hgoing := going_run hrun
  refine ⟨h.alive, h.called.nodup, hgoing.calls, fun j call hcall => ⟨?_, ?_⟩, fun report hmem => ?_⟩
  · exact hgoing.exists_step h.alive hcall
  · exact fun later s' hlater hsteps => reported_of_run hcall hlater hsteps
  · obtain ⟨-, answered, hsorted, -, hanswers, hrest⟩ := h.called.reports report hmem
    refine ⟨answered, hsorted, hanswers.imp fun k info hmem => ⟨hmem, ?_⟩, fun k => hrest k k.isLt⟩
    exact h.served.snapshot _ _ hmem

def contendedMarkets (k : Fin 2) : MarketContext :=
  ⟨if k = 0 then 1 else 2, 8, [⟨7, 3, "sword", 100, 1, 0⟩]⟩

/-- The markets of the shards as they are sent. -/
def contendedInfo (k : Fin 2) : MarketInfo :=
  ⟨(contendedMarkets k).marketId, (contendedMarkets k).items⟩

/-- Two calls at the same time. The first gives up on the second shard, which answers it after
    it has returned. Then a third one begins. -/
def contendedActs : List (Act 2 2) :=
  [.shard 0 .start, .shard 1 .start, .shard 0 .loop, .shard 1 .loop,
    .begin 0, .dispatch 0, .begin 1, .notify 0, .dispatch 1, .notify 1, .dispatch 0, .notify 0,
    .dispatch 0, .dispatch 1, .notify 1, .dispatch 1,
    .shard 0 .take, .fulfill 0 (contendedInfo 0), .await 0 false, .await 0 true, .finish 0,
    .shard 1 .take, .fulfill 1 (contendedInfo 1), .shard 1 .tick, .shard 1 .loop, .shard 1 .wake,
    .shard 1 .take, .fulfill 1 (contendedInfo 1),
    .shard 0 .tick, .shard 0 .loop, .shard 0 .wake, .shard 0 .take, .fulfill 0 (contendedInfo 0),
    .await 1 false, .await 1 false, .finish 1, .begin 0]

theorem own_answers_contended : ∃ s, run (step contendedMarkets) (init 2 2) contendedActs = some s ∧
    s.reports = [⟨0, [contendedInfo 0]⟩, ⟨1, [contendedInfo 0, contendedInfo 1]⟩] ∧
    s.terminated = false ∧ (s.reports.map Report.call).Nodup ∧ (s.callers 0).call? = some 2 ∧
      (∃ a s', a.caller? = some 0 ∧ step contendedMarkets s a = some s') ∧
      ∀ report ∈ s.reports, ∃ answered : List (Fin 2), answered.Pairwise (· < ·) ∧
        List.Forall₂ (fun k info =>
          (⟨report.call, k⟩, info) ∈ s.fulfilled ∧ (contendedMarkets k).Snapshot info)
          answered report.markets ∧
        ∀ k ∉ answered, ⟨report.call, k⟩ ∈ s.skipped := by
  have hrun : run (step contendedMarkets) (init 2 2) contendedActs = some _ := rfl
  obtain ⟨halive, hnodup, -, hprogress, hreports⟩ := market_snapshot_own_answers hrun
  exact ⟨_, hrun, rfl, halive, hnodup, rfl, (hprogress 0 2 rfl).1, hreports⟩

end NfEngine.CoreControl
