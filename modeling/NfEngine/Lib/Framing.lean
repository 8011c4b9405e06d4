-- SUMMARY: Length-announced frames of a stream, and that cutting a stream into frames does not depend on how it arrives.
import Mathlib.Data.List.Basic

/-!
# Framing of a stream

A format announces the length of the first frame as soon as enough of it is
there, and does not change its mind when more arrives. Cutting off complete
frames from the front splits a stream into its frames and an incomplete rest;
doing so to a prefix first, and going on with the rest and the remaining input,
gives the same frames.
-/

namespace Lib.Framing

/-- How the length of the first frame is read off the front of a stream. -/
structure Format (β : Type*) where
  announced : List β → Option ℕ
  pos : ∀ {xs n}, announced xs = some n → 0 < n
  stable : ∀ {xs n}, announced xs = some n → ∀ ys, announced (xs ++ ys) = some n

namespace Format

variable {β : Type*} (F : Format β)

theorem ext_announced {F G : Format β} (h : F.announced = G.announced) : F = G := by
  cases F
  cases G
  cases h
  rfl

/-- The length of the first frame, once all of it is there. -/
def complete (xs : List β) : Option ℕ := (F.announced xs).filter (· ≤ xs.length)

/-- Cut off up to `k` frames. -/
def split : ℕ → List β → List (List β) × List β
  | 0, xs => ([], xs)
  | k + 1, xs =>
    match F.complete xs with
    | none => ([], xs)
    | some n => (xs.take n :: (split k (xs.drop n)).1, (split k (xs.drop n)).2)

/-- The complete frames of a stream. -/
def frames (xs : List β) : List (List β) := (F.split xs.length xs).1

/-- What is left once the complete frames are cut off. -/
def rest (xs : List β) : List β := (F.split xs.length xs).2

variable {F} {xs ys : List β} {n : ℕ}

theorem complete_eq_some : F.complete xs = some n ↔ F.announced xs = some n ∧ n ≤ xs.length := by
  simp [complete, Option.filter_eq_some_iff]

theorem complete_eq_none_of_announced (h : F.announced xs = some n) (hn : xs.length < n) :
    F.complete xs = none := by
  simp [complete, h, Option.filter_some, hn]

theorem lt_of_complete_eq_none (h : F.complete xs = none) (hn : F.announced xs = some n) :
    xs.length < n := by
  by_contra hle
  have hsome := complete_eq_some.mpr ⟨hn, Nat.not_lt.mp hle⟩
  rw [h] at hsome
  cases hsome

/-- A frame is not empty. -/
theorem complete_nil : F.complete ([] : List β) = none := by
  cases hc : F.complete ([] : List β) with
  | none => rfl
  | some n =>
    obtain ⟨hn, hle⟩ := complete_eq_some.mp hc
    exact absurd (F.pos hn) (Nat.not_lt.mpr hle)

theorem complete_append (h : F.complete xs = some n) (ys : List β) :
    F.complete (xs ++ ys) = some n := by
  obtain ⟨hn, hle⟩ := complete_eq_some.mp h
  refine complete_eq_some.mpr ⟨F.stable hn ys, ?_⟩
  simp only [List.length_append]
  omega

/-- As many rounds as there are elements are enough. -/
theorem split_eq (k : ℕ) (h : xs.length ≤ k) : F.split k xs = (F.frames xs, F.rest xs) := by
  suffices ∀ (k k' : ℕ) (xs : List β), xs.length ≤ k → xs.length ≤ k' →
      F.split k xs = F.split k' xs by
    exact this k _ xs h (Nat.le_refl _)
  intro k
  induction k with
  | zero =>
    intro k' xs hk hk'
    obtain rfl := List.length_eq_zero_iff.mp (Nat.le_zero.mp hk)
    cases k' with
    | zero => rfl
    | succ k' => simp only [split, complete_nil]
  | succ k ih =>
    intro k' xs hk hk'
    cases hc : F.complete xs with
    | none => cases k' <;> simp only [split, hc]
    | some n =>
      have hpos := F.pos (complete_eq_some.mp hc).1
      have hle := (complete_eq_some.mp hc).2
      cases k' with
      | zero => omega
      | succ k' =>
        have hlen : (xs.drop n).length ≤ k ∧ (xs.drop n).length ≤ k' := by
          simp only [List.length_drop]
          omega
        simp only [split, hc, ih k' (xs.drop n) hlen.1 hlen.2]

theorem frames_of_complete_eq_none (h : F.complete xs = none) : F.frames xs = [] := by
  unfold frames
  cases xs.length <;> simp only [split, h]

theorem rest_of_complete_eq_none (h : F.complete xs = none) : F.rest xs = xs := by
  unfold rest
  cases xs.length <;> simp only [split, h]

private theorem split_of_complete (h : F.complete xs = some n) :
    F.frames xs = xs.take n :: F.frames (xs.drop n) ∧ F.rest xs = F.rest (xs.drop n) := by
  have hsplit := split_eq (F := F) (xs.length + 1) (Nat.le_succ xs.length)
  have hlen : (xs.drop n).length ≤ xs.length := by simp
  simp only [split, h, split_eq xs.length hlen, Prod.mk.injEq] at hsplit
  exact ⟨hsplit.1.symm, hsplit.2.symm⟩

theorem frames_of_complete (h : F.complete xs = some n) :
    F.frames xs = xs.take n :: F.frames (xs.drop n) :=
  (split_of_complete h).1

theorem rest_of_complete (h : F.complete xs = some n) : F.rest xs = F.rest (xs.drop n) :=
  (split_of_complete h).2

/-- Induction on the frames of a stream. -/
@[elab_as_elim]
theorem frames_induct {motive : List β → Prop} (xs : List β)
    (hnone : ∀ xs, F.complete xs = none → motive xs)
    (hsome : ∀ xs n, F.complete xs = some n → motive (xs.drop n) → motive xs) : motive xs := by
  induction hlen : xs.length using Nat.strongRecOn generalizing xs with
  | _ m ih =>
    cases hc : F.complete xs with
    | none => exact hnone xs hc
    | some n =>
      obtain ⟨hn, hle⟩ := complete_eq_some.mp hc
      have hpos := F.pos hn
      refine hsome xs n hc (ih _ ?_ _ rfl)
      simp only [List.length_drop]
      omega

/-- Nothing complete is left over. -/
theorem complete_rest (xs : List β) : F.complete (F.rest xs) = none := by
  induction xs using F.frames_induct with
  | hnone xs h =>
    rw [rest_of_complete_eq_none h]
    exact h
  | hsome xs n h ih =>
    rw [rest_of_complete h]
    exact ih

private theorem split_append (xs ys : List β) :
    F.frames (xs ++ ys) = F.frames xs ++ F.frames (F.rest xs ++ ys) ∧
      F.rest (xs ++ ys) = F.rest (F.rest xs ++ ys) := by
  induction xs using F.frames_induct with
  | hnone xs h =>
    rw [frames_of_complete_eq_none h, rest_of_complete_eq_none h]
    exact ⟨rfl, rfl⟩
  | hsome xs n h ih =>
    have hle := (complete_eq_some.mp h).2
    have happ := complete_append h ys
    rw [frames_of_complete h, frames_of_complete happ, rest_of_complete h, rest_of_complete happ,
      List.take_append_of_le_length hle, List.drop_append_of_le_length hle, ih.1, ih.2]
    exact ⟨rfl, rfl⟩

theorem frames_append (xs ys : List β) :
    F.frames (xs ++ ys) = F.frames xs ++ F.frames (F.rest xs ++ ys) := (split_append xs ys).1

theorem rest_append (xs ys : List β) : F.rest (xs ++ ys) = F.rest (F.rest xs ++ ys) :=
  (split_append xs ys).2

/-! ## Streams whose frames fit a buffer -/

variable (F) in
/-- No frame of the stream is longer than `cap`, the one under way included. -/
def Fits (cap : ℕ) (xs : List β) : Prop :=
  (∀ f ∈ F.frames xs, f.length ≤ cap) ∧ ∀ n ∈ F.announced (F.rest xs), n ≤ cap

instance (cap : ℕ) (xs : List β) : Decidable (F.Fits cap xs) := inferInstanceAs (Decidable (_ ∧ _))

/-- Dropping the frames already cut off keeps the rest fitting. -/
theorem Fits.of_append {cap : ℕ} (h : F.Fits cap (xs ++ ys)) : F.Fits cap (F.rest xs ++ ys) := by
  obtain ⟨hframes, hrest⟩ := h
  rw [frames_append] at hframes
  rw [rest_append] at hrest
  exact ⟨fun f hf => hframes f (List.mem_append_right _ hf), hrest⟩

/-- The frame under way will fit. -/
theorem Fits.announced_le {cap : ℕ} (h : F.Fits cap (xs ++ ys)) (hn : F.announced xs = some n) :
    n ≤ cap := by
  have hall := F.stable hn ys
  by_cases hle : n ≤ (xs ++ ys).length
  · have hc := complete_eq_some.mpr ⟨hall, hle⟩
    have hmem := h.1 ((xs ++ ys).take n) (by rw [frames_of_complete hc]; exact List.mem_cons_self)
    rwa [List.length_take, Nat.min_eq_left hle] at hmem
  · have hc := complete_eq_none_of_announced hall (Nat.not_le.mp hle)
    refine h.2 n ?_
    rwa [rest_of_complete_eq_none hc]

/-- A prefix of a fitting stream fits. -/
theorem Fits.prefix_fits {cap : ℕ} (h : F.Fits cap (xs ++ ys)) : F.Fits cap xs := by
  refine ⟨fun f hf => h.1 f ?_, fun n hn => h.of_append.announced_le hn⟩
  rw [frames_append]
  exact List.mem_append_left _ hf

/-! ## Streams of whole frames -/

variable (F) in
/-- A whole frame announces its own length. -/
def IsFrame (f : List β) : Prop := F.announced f = some f.length

theorem IsFrame.complete {f : List β} (h : F.IsFrame f) : F.complete f = some f.length :=
  complete_eq_some.mpr ⟨h, Nat.le_refl _⟩

/-- The beginning of a frame announces its length, if any. -/
theorem IsFrame.announced_eq {p q : List β} (h : F.IsFrame (p ++ q)) (hn : F.announced p = some n) :
    n = (p ++ q).length := by
  have hall := F.stable hn q
  rw [h] at hall
  exact (Option.some.inj hall).symm

/-- A proper beginning of a frame is incomplete. -/
theorem IsFrame.complete_eq_none {p q : List β} (h : F.IsFrame (p ++ q)) (hq : q ≠ []) :
    F.complete p = none := by
  cases hn : F.announced p with
  | none => simp [Format.complete, hn]
  | some n =>
    apply complete_eq_none_of_announced hn
    rw [h.announced_eq hn, List.length_append]
    exact Nat.lt_add_of_pos_right (List.length_pos_iff.mpr hq)

/-- A beginning of a frame is cut off once it is the whole frame. -/
theorem IsFrame.frames_or_rest {p q : List β} (h : F.IsFrame (p ++ q)) :
    (q = [] ∧ F.frames p = [p] ∧ F.rest p = []) ∨ (q ≠ [] ∧ F.frames p = [] ∧ F.rest p = p) := by
  by_cases hq : q = []
  · subst hq
    rw [List.append_nil] at h
    have hnil : F.complete ([] : List β) = none := complete_nil
    refine .inl ⟨rfl, ?_, ?_⟩
    · rw [frames_of_complete h.complete, List.take_length, List.drop_length,
        frames_of_complete_eq_none hnil]
    · rw [rest_of_complete h.complete, List.drop_length, rest_of_complete_eq_none hnil]
  · have hnone := h.complete_eq_none hq
    exact .inr ⟨hq, frames_of_complete_eq_none hnone, rest_of_complete_eq_none hnone⟩

/-- Whole frames in front of a stream are cut off first. -/
theorem split_flatten_append {fs : List (List β)} (hfs : ∀ f ∈ fs, F.IsFrame f) (xs : List β) :
    F.frames (fs.flatten ++ xs) = fs ++ F.frames xs ∧ F.rest (fs.flatten ++ xs) = F.rest xs := by
  induction fs with
  | nil => exact ⟨rfl, rfl⟩
  | cons f fs ih =>
    obtain ⟨hframes, hrest⟩ := ih fun g hg => hfs g (List.mem_cons_of_mem f hg)
    have hc := complete_append (hfs f List.mem_cons_self).complete (fs.flatten ++ xs)
    rw [List.flatten_cons, List.append_assoc, frames_of_complete hc, rest_of_complete hc,
      List.take_left, List.drop_left, hframes, hrest]
    exact ⟨rfl, rfl⟩

theorem flatten_frames (xs : List β) : (F.frames xs).flatten ++ F.rest xs = xs := by
  induction xs using F.frames_induct with
  | hnone xs h => rw [frames_of_complete_eq_none h, rest_of_complete_eq_none h, List.flatten_nil,
      List.nil_append]
  | hsome xs n h ih =>
    rw [frames_of_complete h, rest_of_complete h, List.flatten_cons, List.append_assoc, ih,
      List.take_append_drop]

theorem length_le_of_mem_frames {f : List β} (h : f ∈ F.frames xs) : f.length ≤ xs.length := by
  induction xs using F.frames_induct with
  | hnone xs hc =>
    rw [frames_of_complete_eq_none hc] at h
    cases h
  | hsome xs n hc ih =>
    rw [frames_of_complete hc] at h
    rcases List.mem_cons.mp h with rfl | hmem
    · rw [List.length_take]
      exact Nat.min_le_right _ _
    · refine Nat.le_trans (ih hmem) ?_
      rw [List.length_drop]
      exact Nat.sub_le _ _

variable (F) in
/-- The frames `fs` and the proper beginning `p` of one more, all of them at most `cap`
    long. -/
structure Stream (cap : ℕ) (fs : List (List β)) (p : List β) : Prop where
  frame : ∀ f ∈ fs, F.IsFrame f ∧ f.length ≤ cap
  started : ∃ q, q ≠ [] ∧ F.IsFrame (p ++ q) ∧ (p ++ q).length ≤ cap

namespace Stream

variable {cap : ℕ} {fs : List (List β)} {p : List β}

theorem complete_eq_none (h : F.Stream cap fs p) : F.complete p = none := by
  obtain ⟨q, hq, hframe, _⟩ := h.started
  exact hframe.complete_eq_none hq

theorem frames_eq (h : F.Stream cap fs p) : F.frames (fs.flatten ++ p) = fs := by
  rw [(split_flatten_append (fun f hf => (h.frame f hf).1) p).1,
    frames_of_complete_eq_none h.complete_eq_none, List.append_nil]

theorem rest_eq (h : F.Stream cap fs p) : F.rest (fs.flatten ++ p) = p := by
  rw [(split_flatten_append (fun f hf => (h.frame f hf).1) p).2,
    rest_of_complete_eq_none h.complete_eq_none]

theorem fits (h : F.Stream cap fs p) : F.Fits cap (fs.flatten ++ p) := by
  unfold Fits
  rw [h.frames_eq, h.rest_eq]
  refine ⟨fun f hf => (h.frame f hf).2, fun n hn => ?_⟩
  obtain ⟨q, _, hframe, hle⟩ := h.started
  exact Nat.le_trans (Nat.le_of_eq (hframe.announced_eq hn)) hle

end Stream

end Format

end Lib.Framing
