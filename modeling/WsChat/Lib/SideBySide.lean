import Mathlib.Tactic.Common

/-! Two computations that keep a state and can throw, run side by side: they return or throw the same and keep
their states related. -/
namespace Lib
variable {ε σ τ α β : Type} {R : σ → τ → Prop}

/-- From related states both end alike, in related states. -/
def Agree (R : σ → τ → Prop) (m : ExceptT ε (StateM σ) α) (m' : ExceptT ε (StateM τ) α) : Prop :=
  ∀ s s', R s s' → (m.run s).1 = (m'.run s').1 ∧ R (m.run s).2 (m'.run s').2

theorem agree_pure (a : α) : Agree R (pure a : ExceptT ε (StateM σ) α) (pure a) := fun _ _ h => ⟨rfl, h⟩

theorem agree_throw (e : ε) : Agree R (throw e : ExceptT ε (StateM σ) α) (throw e) := fun _ _ h => ⟨rfl, h⟩

theorem agree_modify {f : σ → σ} {f' : τ → τ} (hf : ∀ s s', R s s' → R (f s) (f' s')) :
    Agree R (modify f : ExceptT ε (StateM σ) PUnit) (modify f') := fun s s' h => ⟨rfl, hf s s' h⟩

theorem agree_bind {m : ExceptT ε (StateM σ) α} {m' : ExceptT ε (StateM τ) α} {f : α → ExceptT ε (StateM σ) β}
    {f' : α → ExceptT ε (StateM τ) β} (hm : Agree R m m') (hf : ∀ a, Agree R (f a) (f' a)) :
    Agree R (m >>= f) (m' >>= f') := by
  intro s s' h
  have hrun : (m >>= f).run s = ExceptT.bindCont f (m.run s).1 (m.run s).2 := rfl
  have hrun' : (m' >>= f').run s' = ExceptT.bindCont f' (m'.run s').1 (m'.run s').2 := rfl
  obtain ⟨hresult, hstate⟩ := hm s s' h
  rw [hrun, hrun', ← hresult]
  cases (m.run s).1 with
  | error e => exact ⟨rfl, hstate⟩
  | ok a => exact hf a _ _ hstate

end Lib
