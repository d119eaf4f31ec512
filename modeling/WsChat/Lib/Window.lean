import Mathlib.Data.List.Basic
import Mathlib.Tactic.Linarith

/-! A limiter that counts from the first request after a pause: the count starts again
once more than `gap` time units have passed since it last did, and at most `cap` requests
pass until then. -/
namespace Lib

structure Limiter where
  last : Int
  count : Int
  deriving DecidableEq

namespace Limiter
variable (gap cap : Nat)

def reset (s : Limiter) (t : Int) : Limiter := if gap < t - s.last then ⟨t, 0⟩ else s

/-- The request passes; only counted ones do. -/
def passes (s : Limiter) (t : Int) (counted : Bool) : Bool := (s.reset gap t).count < cap && counted

def step (s : Limiter) (x : Int × Bool) : Limiter :=
  let s' := s.reset gap x.1
  if s.passes gap cap x.1 x.2 then { s' with count := s'.count + 1 } else s'

def passed : Limiter → List (Int × Bool) → List Int
  | _, [] => []
  | s, x :: xs => (if s.passes gap cap x.1 x.2 then [x.1] else []) ++ passed (s.step gap cap x) xs

/-- The times never go back, and none is before the last start of the count. -/
def Timely (s : Limiter) (xs : List (Int × Bool)) : Prop :=
  (s.last :: xs.map Prod.fst).Pairwise (· ≤ ·)

theorem reset_count_nonneg {s : Limiter} (h : 0 ≤ s.count) (t : Int) : 0 ≤ (s.reset gap t).count := by
  unfold reset
  split
  · exact le_refl _
  · exact h

theorem step_count_nonneg {s : Limiter} (h : 0 ≤ s.count) (x : Int × Bool) :
    0 ≤ (s.step gap cap x).count := by
  have hreset := reset_count_nonneg gap h x.1
  unfold step
  dsimp only
  split
  · dsimp only
    omega
  · exact hreset

theorem step_last (s : Limiter) (x : Int × Bool) : (s.step gap cap x).last = (s.reset gap x.1).last := by
  unfold step
  dsimp only
  split
  · rfl
  · rfl

theorem Timely.step {s : Limiter} {x : Int × Bool} {xs : List (Int × Bool)} (h : Timely s (x :: xs)) :
    s.last ≤ x.1 ∧ Timely (s.step gap cap x) xs := by
  unfold Timely at h ⊢
  rw [List.map_cons, List.pairwise_cons, List.pairwise_cons] at h
  obtain ⟨hlast, hx, hxs⟩ := h
  refine ⟨hlast _ List.mem_cons_self, List.pairwise_cons.mpr ⟨?_, hxs⟩⟩
  intro t ht
  rw [step_last, reset]
  split
  · exact hx t ht
  · exact hlast t (List.mem_cons_of_mem _ ht)

def starts (gap : Nat) (b x : Int) : Nat := (b + gap + 1 - x).toNat / (gap + 1)

theorem starts_anti {b x y : Int} (h : x ≤ y) : starts gap b y ≤ starts gap b x :=
  Nat.div_le_div_right (by omega)

theorem starts_succ {b t : Int} (h : t ≤ b) : starts gap b t = starts gap b (t + gap + 1) + 1 := by
  have hsplit : (b + gap + 1 - t).toNat = (b + gap + 1 - (t + gap + 1)).toNat + (gap + 1) := by omega
  rw [starts, starts, hsplit, Nat.add_div_right _ (Nat.succ_pos gap)]

theorem starts_late {b t : Int} (h : b < t) : starts gap b t = 0 :=
  Nat.div_eq_of_lt (by omega)

/-- What can still pass in `[a, b]`: what the present count leaves, if it reaches into the
interval, and full counts that start later. -/
def budget (gap cap : Nat) (a b : Int) (s : Limiter) : Nat :=
  (if a ≤ s.last + gap ∧ s.last ≤ b then (cap - s.count).toNat else 0) +
    cap * starts gap b (max (s.last + gap + 1) (a - gap))

theorem budget_fresh {a b x t : Int} (h : x ≤ t ∨ x ≤ a - gap) :
    budget gap cap a b ⟨t, 0⟩ ≤ cap * starts gap b x := by
  unfold budget
  dsimp only
  by_cases hin : a ≤ t + gap ∧ t ≤ b
  · have hx : x ≤ t := by omega
    have hmax : max (t + gap + 1) (a - gap) = t + gap + 1 := max_eq_left (by omega)
    have hone := starts_succ gap hin.2
    have hle : starts gap b t ≤ starts gap b x := starts_anti gap hx
    have hmul : cap * (starts gap b (t + gap + 1) + 1) ≤ cap * starts gap b x :=
      Nat.mul_le_mul_left cap (hone ▸ hle)
    rw [if_pos hin, hmax]
    rw [Nat.mul_succ] at hmul
    omega
  · rw [if_neg hin, Nat.zero_add]
    apply Nat.mul_le_mul_left
    by_cases hb : t ≤ b
    · exact starts_anti gap (by omega)
    · rw [starts_late gap (by omega)]
      exact Nat.zero_le _

theorem budget_reset (a b t : Int) (s : Limiter) :
    budget gap cap a b (s.reset gap t) ≤ budget gap cap a b s := by
  unfold reset
  split
  · rename_i hgap
    have hfresh : budget gap cap a b ⟨t, 0⟩ ≤
        cap * starts gap b (max (s.last + gap + 1) (a - gap)) := budget_fresh gap cap (by omega)
    exact hfresh.trans (Nat.le_add_left _ _)
  · exact le_refl _

theorem budget_step (a b : Int) {s : Limiter} {x : Int × Bool} (hs : 0 ≤ s.count) (hx : s.last ≤ x.1) :
    (if s.passes gap cap x.1 x.2 then [x.1] else []).countP (fun t => a ≤ t ∧ t ≤ b) +
      budget gap cap a b (s.step gap cap x) ≤ budget gap cap a b s := by
  have hreset := budget_reset gap cap a b x.1 s
  have hcount := reset_count_nonneg gap hs x.1
  have hlast : (s.reset gap x.1).last ≤ x.1 ∧ x.1 ≤ (s.reset gap x.1).last + gap := by
    unfold reset
    split
    · exact ⟨le_refl _, by dsimp only; omega⟩
    · exact ⟨hx, by omega⟩
  unfold step
  dsimp only
  by_cases hpass : s.passes gap cap x.1 x.2
  · have hroom : (s.reset gap x.1).count < cap := by
      have := (Bool.and_eq_true_iff.mp hpass).1
      simpa using this
    rw [if_pos hpass, if_pos hpass]
    refine le_trans ?_ hreset
    unfold budget
    dsimp only
    by_cases hin : a ≤ x.1 ∧ x.1 ≤ b
    · rw [List.countP_singleton, if_pos (by simpa using hin), if_pos (by omega), if_pos (by omega)]
      omega
    · rw [List.countP_singleton, if_neg (by simpa using hin)]
      split
      · omega
      · omega
  · rw [if_neg hpass, if_neg hpass, List.countP_nil, Nat.zero_add]
    exact hreset

theorem passed_le_budget (a b : Int) {s : Limiter} (hs : 0 ≤ s.count) {xs : List (Int × Bool)}
    (h : Timely s xs) : (s.passed gap cap xs).countP (fun t => a ≤ t ∧ t ≤ b) ≤ budget gap cap a b s := by
  induction xs generalizing s with
  | nil => exact Nat.zero_le _
  | cons x xs ih =>
    obtain ⟨hx, hxs⟩ := h.step gap cap
    have hrest := ih (step_count_nonneg gap cap hs x) hxs
    have hone := budget_step gap cap a b hs hx
    rw [passed, List.countP_append]
    omega

/-- In every interval of length `n` at most one full count more passes than counts fit into
the interval and the gap before it. -/
theorem passed_le {t : Int} (a : Int) (n : Nat) {xs : List (Int × Bool)} (h : Timely ⟨t, 0⟩ xs) :
    (passed gap cap ⟨t, 0⟩ xs).countP (fun u => a ≤ u ∧ u ≤ a + n) ≤ cap * (1 + (n + gap) / (gap + 1)) := by
  have hbudget := passed_le_budget gap cap a (a + n) (le_refl _) h
  have hfresh : budget gap cap a (a + n) ⟨t, 0⟩ ≤ cap * starts gap (a + n) (a - gap) :=
    budget_fresh gap cap (Or.inr (le_refl _))
  have hstarts : starts gap (a + n) (a - gap) = 1 + (n + gap) / (gap + 1) := by
    have hlen : (a + n + gap + 1 - (a - gap)).toNat = (n + gap) + (gap + 1) := by omega
    rw [starts, hlen, Nat.add_div_right _ (Nat.succ_pos gap), Nat.add_comm]
  rw [← hstarts]
  exact hbudget.trans hfresh

end Limiter
end Lib
