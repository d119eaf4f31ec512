import Mathlib.Data.List.Induction
import Mathlib.Data.List.Nodup
import Mathlib.Data.List.Count
import Mathlib.Data.List.Perm.Basic

/-! Folds that leave a view of the state alone, and counts in a list without repetition
under a change at one element. -/
namespace Lib
variable {α β σ : Type*}

theorem foldl_view (g : σ → β) (f : σ → α → σ) (h : ∀ s a, g (f s a) = g s) (l : List α) (s : σ) :
    g (l.foldl f s) = g s := by
  induction l generalizing s with
  | nil => rfl
  | cons a l ih => rw [List.foldl_cons, ih, h]

theorem exists_of_countP_lt (p q : α → Bool) {l : List α} (h : l.countP p < l.countP q) : ∃ b ∈ l, q b ∧ ¬ p b := by
  by_contra hno
  have hle : l.countP q ≤ l.countP p := by
    apply List.countP_mono_left
    intro b hb hq
    by_contra hp
    exact hno ⟨b, hb, hq, hp⟩
  omega

section
variable [DecidableEq α] (p q : α → Bool) {l : List α} {a : α}

theorem countP_erase_add (h : a ∈ l) :
    (l.erase a).countP p + (if p a then 1 else 0) = l.countP p := by
  rw [(List.perm_cons_erase h).countP_eq p, List.countP_cons]

theorem countP_change (hn : l.Nodup) (h : a ∈ l) (hpq : ∀ b ∈ l, b ≠ a → q b = p b) :
    l.countP q + (if p a then 1 else 0) = l.countP p + (if q a then 1 else 0) := by
  have hrest : (l.erase a).countP q = (l.erase a).countP p := by
    apply List.countP_congr
    intro b hb
    have hba := (hn.mem_erase_iff.mp hb)
    rw [hpq b hba.2 hba.1]
  rw [← countP_erase_add p h, ← countP_erase_add q h, hrest]
  omega

end
theorem filter_mem_of_sublist {α : Type*} [DecidableEq α] {l l' : List α} (h : l'.Sublist l) (hn : l.Nodup) :
    l.filter (· ∈ l') = l' := by
  induction h with
  | slnil => rfl
  | @cons l' l a h ih =>
    obtain ⟨ha, hn⟩ := List.nodup_cons.mp hn
    have hout : a ∉ l' := fun hin => ha (h.subset hin)
    rw [List.filter_cons_of_neg (by simpa using hout), ih hn]
  | @cons_cons l' l a h ih =>
    obtain ⟨ha, hn⟩ := List.nodup_cons.mp hn
    have hsame : l.filter (fun b => b ∈ a :: l') = l.filter fun b => b ∈ l' := by
      refine List.filter_congr ?_
      intro b hb
      have hne : b ≠ a := fun he => ha (he ▸ hb)
      simp [hne]
    rw [List.filter_cons_of_pos (by simp), hsame, ih hn]

theorem foldl_idle {f : σ → α → σ} {l : List α} (h : ∀ a ∈ l, ∀ s, f s a = s) (s : σ) : l.foldl f s = s := by
  induction l with
  | nil => rfl
  | cons a l ih =>
    rw [List.foldl_cons, h a List.mem_cons_self]
    exact ih fun b hb => h b (List.mem_cons_of_mem a hb)

theorem foldl_copies {f : σ → α → σ} {l : List α} {a : α} (hidem : ∀ s, f (f s a) a = f s a)
    (h : ∀ b ∈ l, b = a ∨ ∀ s, f s b = s) (ha : a ∈ l) (s : σ) : l.foldl f s = f s a := by
  have hafter : ∀ l' : List α, (∀ b ∈ l', b = a ∨ ∀ s, f s b = s) → ∀ s, f s a = s → l'.foldl f s = s := by
    intro l'
    induction l' with
    | nil => exact fun _ _ _ => rfl
    | cons b l' ih =>
      intro hl s hs
      have hb : f s b = s := by
        cases hl b List.mem_cons_self with
        | inl he => rw [he, hs]
        | inr he => exact he s
      rw [List.foldl_cons, hb]
      exact ih (fun x hx => hl x (List.mem_cons_of_mem b hx)) s hs
  induction l with
  | nil => cases ha
  | cons b l ih =>
    have hrest : ∀ x ∈ l, x = a ∨ ∀ s, f s x = s := fun x hx => h x (List.mem_cons_of_mem b hx)
    rw [List.foldl_cons]
    cases h b List.mem_cons_self with
    | inl he =>
      rw [he]
      exact hafter l hrest _ (hidem s)
    | inr he =>
      rw [he]
      cases List.mem_cons.mp ha with
      | inl hab =>
        rw [← hab] at he
        rw [he, hafter l hrest s (he s)]
      | inr hin => exact ih hrest hin

theorem foldl_flatMap_one {f : σ → α → σ} {g : β → List α} {l : List β} {b : β} (hn : l.Nodup) (hb : b ∈ l)
    (h : ∀ b' ∈ l, b' ≠ b → ∀ a ∈ g b', ∀ s, f s a = s) (s : σ) : (l.flatMap g).foldl f s = (g b).foldl f s := by
  induction l generalizing s with
  | nil => cases hb
  | cons b' l ih =>
    obtain ⟨hout, hn⟩ := List.nodup_cons.mp hn
    have hrest : ∀ x ∈ l, x ≠ b → ∀ a ∈ g x, ∀ s, f s a = s := fun x hx => h x (List.mem_cons_of_mem b' hx)
    rw [List.flatMap_cons, List.foldl_append]
    by_cases he : b' = b
    · subst he
      refine foldl_idle ?_ _
      intro a ha
      obtain ⟨x, hx, hax⟩ := List.mem_flatMap.mp ha
      exact hrest x hx (fun hxb => hout (hxb ▸ hx)) a hax
    · rw [foldl_idle (h b' List.mem_cons_self he)]
      exact ih hn ((List.mem_cons.mp hb).resolve_left (Ne.symm he)) hrest s

/-- What holds at first and not in the end is lost at one element. -/
theorem exists_loss {p : List α → Prop} {l : List α} (hfirst : p []) (hlast : ¬ p l) :
    ∃ l₁ a l₂, l = l₁ ++ a :: l₂ ∧ p l₁ ∧ ¬ p (l₁ ++ [a]) := by
  induction l using List.reverseRecOn with
  | nil => exact absurd hfirst hlast
  | append_singleton l a ih =>
    by_cases hl : p l
    · exact ⟨l, a, [], rfl, hl, hlast⟩
    · obtain ⟨l₁, b, l₂, rfl, hkept, hlost⟩ := ih hl
      exact ⟨l₁, b, l₂ ++ [a], by simp, hkept, hlost⟩

end Lib
