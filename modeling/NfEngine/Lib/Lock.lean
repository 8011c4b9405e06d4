-- SUMMARY: An object behind a lock: each run of its threads is explained by atomic operations, one between the call and the return of each.
import Mathlib.Logic.Function.Basic
import NfEngine.Lib.Refinement
import NfEngine.Lib.Transition

/-!
# Objects behind a lock

Threads call the operations of an object that they share. An operation may answer before
it takes the lock; otherwise it takes the lock, makes its accesses one by one, and gives
the lock back. If the accesses of each operation, made without interruption, amount to an
atomic operation, then every run of any number of threads does: the answers are those of
the atomic operations in the order of `log`, and each call has its place in that order
between its call and its return.

A call remembers how many operations were complete when it was made, and a returned one
also how many there were when it returned. The log and these numbers are observations.
-/

namespace Lib.Lock

open Lib.Transition

variable {ι σ ω π ρ : Type*}

/-- What an operation answers without the lock, where its critical section starts, and what
    an access in there does. -/
structure Code (σ ω π ρ : Type*) where
  early : ω → Option ρ
  enter : ω → π
  access : σ → π → σ × (π ⊕ ρ)

/-- The accesses from a place on, made without interruption. -/
inductive Completes (code : Code σ ω π ρ) : σ → π → σ → ρ → Prop where
  | last {s s' : σ} {pc : π} {r : ρ} (h : code.access s pc = (s', .inr r)) : Completes code s pc s' r
  | next {s s' t : σ} {pc pc' : π} {r : ρ} (h : code.access s pc = (s', .inl pc'))
      (hrest : Completes code s' pc' t r) : Completes code s pc t r

/-- The operations, made without interruption, are the atomic ones. -/
structure Implements (code : Code σ ω π ρ) (spec : σ → ω → ρ × σ) : Prop where
  early : ∀ {op r}, code.early op = some r → ∀ s, spec s op = (r, s)
  body : ∀ {op s s' r}, code.early op = none → Completes code s (code.enter op) s' r →
    spec s op = (r, s')

/-- What one access leaves to be done. -/
def after (rest : σ → π → ρ × σ) : σ × (π ⊕ ρ) → ρ × σ
  | (s, .inl pc) => rest s pc
  | (s, .inr r) => (r, s)

/-- The rule for a critical section: from each place in it, say what the rest of it leads to, and
    check one access. -/
theorem Implements.of_rest {code : Code σ ω π ρ} {spec : σ → ω → ρ × σ} (rest : σ → π → ρ × σ)
    (hearly : ∀ {op r}, code.early op = some r → ∀ s, spec s op = (r, s))
    (henter : ∀ {op}, code.early op = none → ∀ s, spec s op = rest s (code.enter op))
    (haccess : ∀ s pc, rest s pc = after rest (code.access s pc)) : Implements code spec where
  early := hearly
  body {op s s' r} hbody hcompletes := by
    have hrest : ∀ {s pc s' r}, Completes code s pc s' r → rest s pc = (r, s') := by
      intro s pc s' r h
      induction h with
      | last h => rw [haccess, h, after]
      | next h _ ih => rw [haccess, h, after, ih]
    rw [henter hbody, hrest hcompletes]

/-- Where a thread is. `since` is the number of complete operations when the call was made,
    and `pos` the place of its own one. -/
inductive Thread (ω π ρ : Type*) where
  | idle
  | called (op : ω) (since : ℕ)
  | inside (op : ω) (since : ℕ) (pc : π)
  /-- The answer is known and the lock is still held. -/
  | leaving (op : ω) (since : ℕ) (r : ρ) (pos : ℕ)
  | left (op : ω) (since : ℕ) (r : ρ) (pos : ℕ)

/-- A call that has returned, when `till` operations were complete. -/
structure Call (ω ρ : Type*) where
  op : ω
  answer : ρ
  since : ℕ
  pos : ℕ
  till : ℕ

structure System (ι σ ω π ρ : Type*) where
  shared : σ
  holder : Option ι
  threads : ι → Thread ω π ρ
  log : List (ω × ρ)
  returned : List (Call ω ρ)

def init (s₀ : σ) : System ι σ ω π ρ := ⟨s₀, none, fun _ => .idle, [], []⟩

inductive Act (ι ω : Type*) where
  | call (i : ι) (op : ω)
  /-- The operation answers before it takes the lock. -/
  | early (i : ι)
  | lock (i : ι)
  | access (i : ι)
  | unlock (i : ι)
  | ret (i : ι)

variable [DecidableEq ι] {code : Code σ ω π ρ}

def step (code : Code σ ω π ρ) (s : System ι σ ω π ρ) : Act ι ω → Option (System ι σ ω π ρ)
  | .call i op =>
    match s.threads i with
    | .idle => some { s with threads := Function.update s.threads i (.called op s.log.length) }
    | _ => none
  | .early i =>
    match s.threads i with
    | .called op since =>
      (code.early op).map fun r =>
        { s with
          threads := Function.update s.threads i (.left op since r s.log.length)
          log := s.log ++ [(op, r)] }
    | _ => none
  | .lock i =>
    match s.threads i, s.holder with
    | .called op since, none =>
      if (code.early op).isSome then none
      else some { s with
        holder := some i, threads := Function.update s.threads i (.inside op since (code.enter op)) }
    | _, _ => none
  | .access i =>
    match s.threads i with
    | .inside op since pc =>
      match code.access s.shared pc with
      | (shared, .inl pc') =>
        some { s with
          shared := shared, threads := Function.update s.threads i (.inside op since pc') }
      | (shared, .inr r) =>
        some { s with
          shared := shared
          threads := Function.update s.threads i (.leaving op since r s.log.length)
          log := s.log ++ [(op, r)] }
    | _ => none
  | .unlock i =>
    match s.threads i with
    | .leaving op since r pos =>
      some { s with holder := none, threads := Function.update s.threads i (.left op since r pos) }
    | _ => none
  | .ret i =>
    match s.threads i with
    | .left op since r pos =>
      some { s with
        threads := Function.update s.threads i .idle
        returned := s.returned ++ [⟨op, r, since, pos, s.log.length⟩] }
    | _ => none

/-! ## What a step does -/

variable {s s' : System ι σ ω π ρ} {a : Act ι ω}

inductive Moves (code : Code σ ω π ρ) (s : System ι σ ω π ρ) : System ι σ ω π ρ → Prop where
  | call {i : ι} {op : ω} (hi : s.threads i = .idle) :
      Moves code s { s with threads := Function.update s.threads i (.called op s.log.length) }
  | early {i : ι} {op : ω} {since : ℕ} {r : ρ} (hi : s.threads i = .called op since)
      (hearly : code.early op = some r) :
      Moves code s
        { s with
          threads := Function.update s.threads i (.left op since r s.log.length)
          log := s.log ++ [(op, r)] }
  | lock {i : ι} {op : ω} {since : ℕ} (hi : s.threads i = .called op since) (hfree : s.holder = none)
      (hearly : code.early op = none) :
      Moves code s
        { s with
          holder := some i, threads := Function.update s.threads i (.inside op since (code.enter op)) }
  | access {i : ι} {op : ω} {since : ℕ} {pc pc' : π} {shared : σ} (hi : s.threads i = .inside op since pc)
      (haccess : code.access s.shared pc = (shared, .inl pc')) :
      Moves code s
        { s with shared := shared, threads := Function.update s.threads i (.inside op since pc') }
  | last {i : ι} {op : ω} {since : ℕ} {pc : π} {r : ρ} {shared : σ}
      (hi : s.threads i = .inside op since pc) (haccess : code.access s.shared pc = (shared, .inr r)) :
      Moves code s
        { s with
          shared := shared
          threads := Function.update s.threads i (.leaving op since r s.log.length)
          log := s.log ++ [(op, r)] }
  | unlock {i : ι} {op : ω} {since : ℕ} {r : ρ} {pos : ℕ} (hi : s.threads i = .leaving op since r pos) :
      Moves code s
        { s with holder := none, threads := Function.update s.threads i (.left op since r pos) }
  | ret {i : ι} {op : ω} {since : ℕ} {r : ρ} {pos : ℕ} (hi : s.threads i = .left op since r pos) :
      Moves code s
        { s with
          threads := Function.update s.threads i .idle
          returned := s.returned ++ [⟨op, r, since, pos, s.log.length⟩] }

theorem moves_of_step (h : step code s a = some s') : Moves code s s' := by
  cases a with
  | call i op =>
    simp only [step] at h
    split at h <;> cases h
    next hi => exact .call hi
  | early i =>
    simp only [step] at h
    split at h
    next op since hi =>
      obtain ⟨r, hr, rfl⟩ := Option.map_eq_some_iff.mp h
      exact .early hi hr
    next => cases h
  | lock i =>
    simp only [step] at h
    split at h
    next op since hi hfree =>
      split at h <;> cases h
      next hearly => exact .lock hi hfree (Option.not_isSome_iff_eq_none.mp hearly)
    next => cases h
  | access i =>
    simp only [step] at h
    split at h
    next op since pc hi =>
      split at h <;> cases h
      next haccess => exact .access hi haccess
      next haccess => exact .last hi haccess
    next => cases h
  | unlock i =>
    simp only [step] at h
    split at h <;> cases h
    next hi => exact .unlock hi
  | ret i =>
    simp only [step] at h
    split at h <;> cases h
    next hi => exact .ret hi

/-! ## The order of the operations -/

/-- The thread is in its critical section. -/
def Thread.holds : Thread ω π ρ → Bool
  | .inside .. | .leaving .. => true
  | _ => false

/-- The shared state is the atomic one between two critical sections, and the rest of a critical
    section leads to what the atomic operation does. -/
def Agrees (code : Code σ ω π ρ) (spec : σ → ω → ρ × σ) (t : σ) (s : System ι σ ω π ρ) : Prop :=
  match s.holder with
  | none => s.shared = t
  | some i =>
    match s.threads i with
    | .inside op _ pc => ∀ s' r, Completes code s.shared pc s' r → spec t op = (r, s')
    | .leaving .. => s.shared = t
    | _ => False

/-- The atomic operations of the log lead to a state that agrees with the shared one. -/
structure Serial (code : Code σ ω π ρ) (spec : σ → ω → ρ × σ) (s₀ : σ) (s : System ι σ ω π ρ) : Prop where
  holder : ∀ i, (s.threads i).holds = true → s.holder = some i
  order : ∃ t, Refinement.exec (fun s op => some (spec s op)) s₀ (s.log.map Prod.fst) =
    some (s.log.map Prod.snd, t) ∧ Agrees code spec t s

omit [DecidableEq ι] in
theorem serial_init (code : Code σ ω π ρ) (spec : σ → ω → ρ × σ) (s₀ : σ) :
    Serial code spec s₀ (init s₀ : System ι σ ω π ρ) where
  holder _ h := by cases h
  order := ⟨s₀, rfl, rfl⟩

/-- A thread outside its critical section moves on. -/
theorem Agrees.update_other {spec : σ → ω → ρ × σ} {t : σ} {j : ι} (x : Thread ω π ρ)
    (log : List (ω × ρ)) (returned : List (Call ω ρ)) (h : Agrees code spec t s)
    (hj : (s.threads j).holds = false) :
    Agrees code spec t ⟨s.shared, s.holder, Function.update s.threads j x, log, returned⟩ := by
  unfold Agrees at h ⊢
  cases hholder : s.holder with
  | none =>
    rw [hholder] at h
    exact h
  | some i =>
    rw [hholder] at h
    by_cases hij : i = j
    · subst hij
      cases hi : s.threads i <;> simp [hi, Thread.holds] at h hj
    · simpa only [Function.update_of_ne hij] using h

theorem holder_update {holder : Option ι} {threads : ι → Thread ω π ρ} {j : ι} {x : Thread ω π ρ}
    (h : ∀ i, i ≠ j → (threads i).holds = true → holder = some i)
    (hx : x.holds = true → holder = some j) (i : ι)
    (hi : (Function.update threads j x i).holds = true) : holder = some i := by
  by_cases hij : i = j
  · subst hij
    rw [Function.update_self] at hi
    exact hx hi
  · rw [Function.update_of_ne hij] at hi
    exact h i hij hi

theorem Serial.step {spec : σ → ω → ρ × σ} {s₀ : σ} (himpl : Implements code spec)
    (h : Serial code spec s₀ s) (hmoves : Moves code s s') : Serial code spec s₀ s' := by
  obtain ⟨t, hexec, hagrees⟩ := h.order
  cases hmoves with
  | call hi =>
    refine ⟨holder_update (fun i _ => h.holder i) (fun hx => by cases hx), t, hexec, ?_⟩
    exact hagrees.update_other _ _ _ (by rw [hi]; rfl)
  | early hi hearly =>
    refine ⟨holder_update (fun i _ => h.holder i) (fun hx => by cases hx), t, ?_, ?_⟩
    · rw [List.map_append, List.map_append]
      exact Refinement.exec_concat hexec (congrArg some (himpl.early hearly t))
    · exact hagrees.update_other _ _ _ (by rw [hi]; rfl)
  | @lock i op since hi hfree hearly =>
    refine ⟨holder_update (fun j _ hj => ?_) (fun _ => rfl), t, hexec, ?_⟩
    · have hother := h.holder j hj
      rw [hfree] at hother
      cases hother
    · simp only [Agrees, hfree] at hagrees
      simp only [Agrees, Function.update_self]
      intro s' r hcompletes
      rw [← hagrees]
      exact himpl.body hearly hcompletes
  | @access i op since pc pc' shared hi haccess =>
    have hholder : s.holder = some i := h.holder i (by rw [hi]; rfl)
    refine ⟨holder_update (fun j _ => h.holder j) (fun _ => hholder), t, hexec, ?_⟩
    simp only [Agrees, hholder, hi] at hagrees
    simp only [Agrees, hholder, Function.update_self]
    intro s' r hcompletes
    exact hagrees s' r (.next haccess hcompletes)
  | @last i op since pc r shared hi haccess =>
    have hholder : s.holder = some i := h.holder i (by rw [hi]; rfl)
    simp only [Agrees, hholder, hi] at hagrees
    refine ⟨holder_update (fun j _ => h.holder j) (fun _ => hholder), shared, ?_, ?_⟩
    · rw [List.map_append, List.map_append]
      exact Refinement.exec_concat hexec (congrArg some (hagrees shared r (.last haccess)))
    · simp only [Agrees, hholder, Function.update_self]
  | @unlock i op since r pos hi =>
    have hholder : s.holder = some i := h.holder i (by rw [hi]; rfl)
    refine ⟨holder_update (fun j hne hj => ?_) (fun hx => by cases hx), t, hexec, ?_⟩
    · -- the lock had one holder
      have hother := h.holder j hj
      rw [hholder] at hother
      exact absurd (Option.some.inj hother).symm hne
    · simp only [Agrees, hholder, hi] at hagrees
      exact hagrees
  | ret hi =>
    refine ⟨holder_update (fun i _ => h.holder i) (fun hx => by cases hx), t, hexec, ?_⟩
    exact hagrees.update_other _ _ _ (by rw [hi]; rfl)

/-! ## The place of each call -/

/-- The place of an operation that is complete. -/
def Thread.pos? : Thread ω π ρ → Option ℕ
  | .leaving _ _ _ pos | .left _ _ _ pos => some pos
  | _ => none

def Thread.Ok (log : List (ω × ρ)) : Thread ω π ρ → Prop
  | .idle => True
  | .called _ since | .inside _ since _ => since ≤ log.length
  | .leaving op since r pos | .left op since r pos => since ≤ pos ∧ log[pos]? = some (op, r)

/-- The call has its place between its call and its return. -/
structure Call.Ok (log : List (ω × ρ)) (c : Call ω ρ) : Prop where
  since_le : c.since ≤ c.pos
  lt_till : c.pos < c.till
  entry : log[c.pos]? = some (c.op, c.answer)

theorem getElem?_append_of_some {α : Type*} {l : List α} {n : ℕ} {x : α} (h : l[n]? = some x)
    (l' : List α) : (l ++ l')[n]? = some x := by
  obtain ⟨hn, -⟩ := List.getElem?_eq_some_iff.mp h
  rw [List.getElem?_append_left hn, h]

theorem Thread.Ok.append {log : List (ω × ρ)} {thread : Thread ω π ρ} (h : thread.Ok log)
    (more : List (ω × ρ)) : thread.Ok (log ++ more) := by
  cases thread with
  | idle => trivial
  | called | inside => exact le_trans h (by simp)
  | leaving | left => exact ⟨h.1, getElem?_append_of_some h.2 more⟩

/-- The places of the calls are in order, and no two calls have the same one. -/
structure Placed (s : System ι σ ω π ρ) : Prop where
  threads : ∀ i, (s.threads i).Ok s.log
  returned : ∀ c ∈ s.returned, c.Ok s.log
  threads_ne : ∀ i j pos, (s.threads i).pos? = some pos → (s.threads j).pos? = some pos → i = j
  returned_ne : ∀ c ∈ s.returned, ∀ i, (s.threads i).pos? ≠ some c.pos
  nodup : (s.returned.map Call.pos).Nodup

omit [DecidableEq ι] in
theorem placed_init (s₀ : σ) : Placed (init s₀ : System ι σ ω π ρ) where
  threads _ := trivial
  returned _ h := by cases h
  threads_ne _ _ _ h := by cases h
  returned_ne _ h := by cases h
  nodup := .nil

theorem Thread.Ok.pos_lt {log : List (ω × ρ)} {thread : Thread ω π ρ} {pos : ℕ} (h : thread.Ok log)
    (hpos : thread.pos? = some pos) : pos < log.length := by
  cases thread with
  | idle | called | inside => cases hpos
  | leaving | left =>
    cases hpos
    exact (List.getElem?_eq_some_iff.mp h.2).1

theorem Call.Ok.pos_lt {log : List (ω × ρ)} {c : Call ω ρ} (h : c.Ok log) : c.pos < log.length :=
  (List.getElem?_eq_some_iff.mp h.entry).1

/-- A thread moves on: it keeps its place, has none, or gets the next free one. -/
theorem Placed.update (h : Placed s) {i : ι} {x : Thread ω π ρ} {more : List (ω × ρ)}
    (hthreads : s'.threads = Function.update s.threads i x) (hlog : s'.log = s.log ++ more)
    (hreturned : s'.returned = s.returned) (hx : x.Ok (s.log ++ more))
    (hpos : ∀ pos, x.pos? = some pos → (s.threads i).pos? = some pos ∨ pos = s.log.length) :
    Placed s' := by
  have hplace : ∀ j pos, (s'.threads j).pos? = some pos →
      (s.threads j).pos? = some pos ∨ (j = i ∧ pos = s.log.length) := by
    intro j pos hj
    rw [hthreads] at hj
    by_cases hji : j = i
    · subst hji
      rw [Function.update_self] at hj
      exact (hpos pos hj).imp_right fun heq => ⟨rfl, heq⟩
    · rw [Function.update_of_ne hji] at hj
      exact .inl hj
  refine ⟨fun j => ?_, fun c hc => ?_, fun j k pos hj hk => ?_, fun c hc j hj => ?_, hreturned ▸ h.nodup⟩
  · rw [hthreads, hlog]
    by_cases hj : j = i
    · subst hj
      rwa [Function.update_self]
    · rw [Function.update_of_ne hj]
      exact (h.threads j).append more
  · have hok := h.returned c (hreturned ▸ hc)
    exact ⟨hok.since_le, hok.lt_till, hlog ▸ getElem?_append_of_some hok.entry more⟩
  · -- a place that is not the next free one was there before
    rcases hplace j pos hj with hold | ⟨hji, hnew⟩ <;> rcases hplace k pos hk with hold' | ⟨hki, hnew'⟩
    · exact h.threads_ne j k pos hold hold'
    · exact absurd hnew' ((h.threads j).pos_lt hold).ne
    · exact absurd hnew ((h.threads k).pos_lt hold').ne
    · rw [hji, hki]
  · rcases hplace j c.pos hj with hold | ⟨-, heq⟩
    · exact h.returned_ne c (hreturned ▸ hc) j hold
    · exact (h.returned c (hreturned ▸ hc)).pos_lt.ne heq

theorem Placed.step (h : Placed s) (hmoves : Moves code s s') : Placed s' := by
  have hsame : s.log = s.log ++ [] := (List.append_nil s.log).symm
  cases hmoves with
  | call hi =>
    refine h.update rfl hsame rfl ?_ fun pos hpos => by cases hpos
    exact (List.append_nil s.log).symm ▸ le_rfl
  | @early i op since r hi hearly =>
    have hok := h.threads i
    rw [hi] at hok
    refine h.update rfl rfl rfl ⟨hok, ?_⟩ fun pos hpos => .inr (Option.some.inj hpos).symm
    rw [List.getElem?_append_right le_rfl, Nat.sub_self]
    rfl
  | @lock i op since hi hfree hearly =>
    have hok := h.threads i
    rw [hi] at hok
    exact h.update rfl hsame rfl (hsame ▸ hok) fun pos hpos => by cases hpos
  | @access i op since pc pc' shared hi haccess =>
    have hok := h.threads i
    rw [hi] at hok
    exact h.update rfl hsame rfl (hsame ▸ hok) fun pos hpos => by cases hpos
  | @last i op since pc r shared hi haccess =>
    have hok := h.threads i
    rw [hi] at hok
    refine h.update rfl rfl rfl ⟨hok, ?_⟩ fun pos hpos => .inr (Option.some.inj hpos).symm
    rw [List.getElem?_append_right le_rfl, Nat.sub_self]
    rfl
  | @unlock i op since r pos hi =>
    have hok := h.threads i
    rw [hi] at hok
    refine h.update rfl hsame rfl (hsame ▸ hok) fun pos' hpos => .inl ?_
    rw [hi]
    exact hpos
  | @ret i op since r pos hi =>
    have hok := h.threads i
    rw [hi] at hok
    have hidle : Placed { s with threads := Function.update s.threads i .idle } :=
      h.update rfl hsame rfl trivial fun pos hpos => by cases hpos
    have hpos : (s.threads i).pos? = some pos := by rw [hi]; rfl
    refine ⟨hidle.threads, fun c hc => ?_, hidle.threads_ne, fun c hc j hj => ?_, ?_⟩
    · rcases List.mem_append.mp hc with hc | hc
      · exact h.returned c hc
      · cases List.mem_singleton.mp hc
        exact ⟨hok.1, (List.getElem?_eq_some_iff.mp hok.2).1, hok.2⟩
    · rcases List.mem_append.mp hc with hc | hc
      · exact hidle.returned_ne c hc j hj
      · cases List.mem_singleton.mp hc
        -- the place was this thread's only
        by_cases hji : j = i
        · subst hji
          simp [Thread.pos?] at hj
        · simp only [Function.update_of_ne hji] at hj
          exact hji (h.threads_ne j i pos hj hpos)
    · rw [List.map_append, List.map_singleton]
      refine List.nodup_append.mpr ⟨h.nodup, List.pairwise_singleton _ _, fun p hp q hq => ?_⟩
      obtain ⟨c, hc, rfl⟩ := List.mem_map.mp hp
      rw [List.mem_singleton.mp hq]
      intro heq
      exact h.returned_ne c hc i (hpos.trans (congrArg some heq.symm))

/-- Every run is explained by the atomic operations: the answers are theirs, in the order of the
    log, and every call that has returned has its own place there, between its call and its
    return. -/
theorem linearizable {spec : σ → ω → ρ × σ} (himpl : Implements code spec) {s₀ : σ}
    {acts : List (Act ι ω)} (hrun : run (step code) (init s₀) acts = some s) :
    (∃ t, Refinement.exec (fun s op => some (spec s op)) s₀ (s.log.map Prod.fst) =
        some (s.log.map Prod.snd, t) ∧ (s.holder = none → s.shared = t)) ∧
      (∀ c ∈ s.returned, c.Ok s.log) ∧ (s.returned.map Call.pos).Nodup := by
  have hserial : Serial code spec s₀ s :=
    run_induct (fun _ _ _ h _ hstep => h.step himpl (moves_of_step hstep)) (serial_init code spec s₀)
      (along_true _ acts) hrun
  have hplaced : Placed s :=
    run_induct (fun _ _ _ h _ hstep => h.step (moves_of_step hstep)) (placed_init s₀)
      (along_true _ acts) hrun
  obtain ⟨t, hexec, hagrees⟩ := hserial.order
  refine ⟨⟨t, hexec, fun hfree => ?_⟩, hplaced.returned, hplaced.nodup⟩
  simpa only [Agrees, hfree] using hagrees

end Lib.Lock
