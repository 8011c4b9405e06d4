-- SUMMARY: A pool of things that holders take out and give back, and what pool and holders own together.
import Mathlib.Data.Fintype.Card
import Mathlib.Algebra.Order.BigOperators.Group.Finset
import NfEngine.Lib.Map

/-!
# Pools

Things lie in a pool or are with one of finitely many holders, at most one with each.
Together they are a multiset that taking and giving back leave as it is. When there are
at least as many things as holders, a holder with empty hands finds one; when the things
are distinct, none is in two places.
-/

namespace Lib.Pool

variable {ι α : Type*} [Fintype ι]

/-- What the pool and the holders have together. -/
def owned (pool : List α) (held : ι → Option α) : Multiset α :=
  (pool : Multiset α) + ∑ i, ((held i).toList : Multiset α)

variable {pool : List α} {held : ι → Option α} {i j : ι} {a : α}

theorem mem_owned : a ∈ owned pool held ↔ a ∈ pool ∨ ∃ i, held i = some a := by
  simp [owned, Multiset.mem_sum]

theorem owned_of_idle (h : ∀ i, held i = none) : owned pool held = (pool : Multiset α) := by
  simp [owned, h]

theorem card_owned (pool : List α) (held : ι → Option α) :
    (owned pool held).card = pool.length + ∑ i, (held i).toList.length := by
  simp [owned, Multiset.card_sum]

/-- A holder with empty hands finds something in the pool. -/
theorem exists_cons_of_card_le (hcard : Fintype.card ι ≤ (owned pool held).card) (hi : held i = none) :
    ∃ a rest, pool = a :: rest := by
  cases pool with
  | cons a rest => exact ⟨a, rest, rfl⟩
  | nil =>
    -- otherwise all of them are with the other holders, and these are too few
    rw [card_owned, List.length_nil, Nat.zero_add] at hcard
    have hlt : ∑ i, (held i).toList.length < ∑ _i : ι, 1 := by
      refine Finset.sum_lt_sum (fun k _ => Option.length_toList_le) ⟨i, Finset.mem_univ i, ?_⟩
      rw [hi]
      exact Nat.zero_lt_one
    rw [Finset.sum_const, Finset.card_univ, smul_eq_mul, Nat.mul_one] at hlt
    exact absurd hcard (Nat.not_le.mpr hlt)

variable [DecidableEq ι]

theorem owned_update_add (pool : List α) (held : ι → Option α) (i : ι) (b : Option α) :
    owned pool (Function.update held i b) + ((held i).toList : Multiset α) =
      owned pool held + (b.toList : Multiset α) := by
  rw [owned, owned, add_assoc, add_assoc, sum_update_add (fun o : Option α => (o.toList : Multiset α))]

/-- Taking a thing out of the pool. -/
theorem owned_take (hi : held i = none) :
    owned pool (Function.update held i (some a)) = owned (a :: pool) held := by
  have hupd := owned_update_add pool held i (some a)
  rw [hi] at hupd
  simp only [Option.toList_none, Multiset.coe_nil, add_zero] at hupd
  rw [hupd, owned, owned, ← Multiset.cons_coe, Multiset.cons_add, add_comm]
  rfl

theorem owned_eq_cons (hi : held i = some a) :
    owned pool held = a ::ₘ owned pool (Function.update held i none) := by
  have hupd := owned_update_add pool held i none
  rw [hi] at hupd
  simp only [Option.toList_none, Multiset.coe_nil, add_zero] at hupd
  rw [← hupd, add_comm]
  rfl

/-- Giving it back. -/
theorem owned_give (hi : held i = some a) :
    owned (pool ++ [a]) (Function.update held i none) = owned pool held := by
  rw [owned_eq_cons hi, owned, owned, ← Multiset.coe_add, Multiset.coe_singleton, add_right_comm,
    add_comm, Multiset.singleton_add]

/-- A thing that exists once is not in the pool while somebody holds it. -/
theorem notMem_of_held (hnodup : (owned pool held).Nodup) (hi : held i = some a) : a ∉ pool := by
  rw [owned_eq_cons hi] at hnodup
  intro hmem
  exact (Multiset.nodup_cons.mp hnodup).1 (mem_owned.mpr (.inl hmem))

/-- Nor is it with two holders. -/
theorem holder_unique (hnodup : (owned pool held).Nodup) (hi : held i = some a) (hj : held j = some a) :
    i = j := by
  by_contra hne
  rw [owned_eq_cons hi] at hnodup
  have hother : Function.update held i none j = some a := by
    rw [Function.update_of_ne (Ne.symm hne), hj]
  exact (Multiset.nodup_cons.mp hnodup).1 (mem_owned.mpr (.inr ⟨j, hother⟩))

end Lib.Pool
