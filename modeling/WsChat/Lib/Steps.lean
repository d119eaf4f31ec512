import Mathlib.Logic.Relation

/-! Sequences of steps: what every step preserves a sequence preserves, and loops are
sequences of steps. -/
namespace Lib
open Relation
variable {σ α : Type*} {R : σ → σ → Prop} {P : σ → Prop} {s s' : σ}

theorem steps_preserve (hR : ∀ s s', P s → R s s' → P s') (h : ReflTransGen R s s') (hs : P s) : P s' := by
  induction h with
  | refl => exact hs
  | tail _ hstep ih => exact hR _ _ ih hstep

/-- A property may be used of the states a sequence goes through while it is preserved. -/
theorem steps_preserve_under {Q : σ → Prop} (hP : ∀ s s', P s → R s s' → P s')
    (hQ : ∀ s s', P s → Q s → R s s' → Q s') (h : ReflTransGen R s s') (hs : P s) (hq : Q s) : Q s' :=
  (steps_preserve (P := fun s => P s ∧ Q s)
    (fun _ _ hpq hr => ⟨hP _ _ hpq.1 hr, hQ _ _ hpq.1 hpq.2 hr⟩) h ⟨hs, hq⟩).2

theorem foldl_steps (hR : ∀ s s', P s → R s s' → P s') (f : σ → α → σ) (l : List α)
    (hf : ∀ s, P s → ∀ a ∈ l, ReflTransGen R s (f s a)) (hs : P s) :
    ReflTransGen R s (l.foldl f s) := by
  induction l generalizing s with
  | nil => exact .refl
  | cons a l ih =>
    have hstep := hf s hs a List.mem_cons_self
    exact hstep.trans (ih (fun s hs b hb => hf s hs b (List.mem_cons_of_mem a hb))
      (steps_preserve hR hstep hs))

/-- A property of every run of a machine, by induction on its events. -/
theorem foldl_invariant (f : σ → α → σ) (hf : ∀ s a, P s → P (f s a)) (l : List α) (hs : P s) :
    P (l.foldl f s) := by
  induction l generalizing s with
  | nil => exact hs
  | cons a l ih => exact ih (hf s a hs)

end Lib
