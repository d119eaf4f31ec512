import Mathlib.Tactic.Common

/-! Postconditions of computations that keep a state and can throw. -/
namespace Lib
variable {ε σ α β : Type} {s : σ} {P Q : Except ε α → σ → Prop} {R : Except ε β → σ → Prop}

/-- Started in the state, the computation ends with a result and in a state that satisfy `Q`. -/
def Ends (m : ExceptT ε (StateM σ) α) (s : σ) (Q : Except ε α → σ → Prop) : Prop :=
  Q (m.run s).1 (m.run s).2

theorem ends_pure {a : α} (h : Q (.ok a) s) : Ends (pure a) s Q := h

theorem ends_throw {e : ε} (h : Q (.error e) s) : Ends (throw e) s Q := h

theorem ends_modify {f : σ → σ} {Q : Except ε PUnit → σ → Prop} (h : Q (.ok ⟨⟩) (f s)) :
    Ends (modify f) s Q := h

theorem ends_mono {m : ExceptT ε (StateM σ) α} (h : Ends m s P) (hPQ : ∀ r s', P r s' → Q r s') : Ends m s Q :=
  hPQ _ _ h

theorem ends_bind {m : ExceptT ε (StateM σ) α} {f : α → ExceptT ε (StateM σ) β} (hm : Ends m s P)
    (herror : ∀ e s', P (.error e) s' → R (.error e) s') (hok : ∀ a s', P (.ok a) s' → Ends (f a) s' R) :
    Ends (m >>= f) s R := by
  have hrun : (m >>= f).run s = ExceptT.bindCont f (m.run s).1 (m.run s).2 := rfl
  unfold Ends at hm ⊢
  rw [hrun]
  generalize m.run s = outcome at hm ⊢
  obtain ⟨r, s'⟩ := outcome
  cases r with
  | error e => exact herror e s' hm
  | ok a => exact hok a s' hm

end Lib
