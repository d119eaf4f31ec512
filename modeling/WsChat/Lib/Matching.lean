import WsChat.Lib.Regex
import Mathlib.Data.List.DropRight
import Mathlib.Data.List.Infix
import Mathlib.Data.List.Range
import Mathlib.Data.List.TakeWhile

/-! Rules for the matcher: what a repeated class reads, where a search ends, and what a
replacement leaves. -/
namespace Lib.Regex
variable {α : Type*}

def Pos.skip (p : Pos α) (n : Nat) : Pos α :=
  { p with seen := (p.rest.take n).reverse ++ p.seen, rest := p.rest.drop n }

@[simp] theorem Pos.skip_rest (p : Pos α) (n : Nat) : (p.skip n).rest = p.rest.drop n := rfl
@[simp] theorem Pos.skip_caps (p : Pos α) (n : Nat) : (p.skip n).caps = p.caps := rfl
@[simp] theorem Pos.skip_zero (p : Pos α) : p.skip 0 = p := by simp [Pos.skip]

theorem Pos.skip_skip (p : Pos α) (m n : Nat) : (p.skip m).skip n = p.skip (m + n) := by
  simp only [Pos.skip, List.drop_drop, Pos.mk.injEq, and_true]
  rw [← List.append_assoc, ← List.reverse_append, ← List.take_add]

theorem Pos.since_eq {p q : Pos α} {u : List α} (h : q.seen = u.reverse ++ p.seen) :
    p.since q = u := by
  have hlen : q.seen.length - p.seen.length = u.reverse.length := by
    rw [h, List.length_append, Nat.add_sub_cancel]
  rw [Pos.since, hlen, h, List.take_left, List.reverse_reverse]

@[simp] theorem Pos.since_skip (p : Pos α) (n : Nat) : p.since (p.skip n) = p.rest.take n :=
  Pos.since_eq rfl

/-- The number of elements that a class repeated at most `max` times reads. -/
def reach (c : α → Bool) (max : Option Nat) (s : List α) : Nat :=
  match max with
  | none => (s.takeWhile c).length
  | some m => min m (s.takeWhile c).length

theorem reach_le (c : α → Bool) (max : Option Nat) (s : List α) :
    reach c max s ≤ (s.takeWhile c).length := by
  cases max with
  | none => exact le_refl _
  | some m => exact Nat.min_le_right m _

theorem reach_le_length (c : α → Bool) (max : Option Nat) (s : List α) :
    reach c max s ≤ s.length :=
  (reach_le c max s).trans (List.takeWhile_prefix c).length_le

theorem reach_cons_of_pos {c : α → Bool} {a : α} (h : c a) {max : Option Nat} (hm : max ≠ some 0)
    (s : List α) : reach c max (a :: s) = reach c (max.map (· - 1)) s + 1 := by
  cases max with
  | none => simp [reach, h]
  | some m =>
    have hm' : m ≠ 0 := by simpa using hm
    simp only [reach, List.takeWhile_cons, h, if_true, List.length_cons, Option.map_some]
    omega

theorem reach_cons_of_neg {c : α → Bool} {a : α} (h : ¬ c a) (max : Option Nat) (s : List α) :
    reach c max (a :: s) = 0 := by
  cases max with
  | none => simp [reach, h]
  | some m => simp [reach, h]

@[simp] theorem reach_nil (c : α → Bool) (max : Option Nat) : reach c max [] = 0 := by
  cases max with
  | none => rfl
  | some m => simp [reach]

theorem reach_get {c : α → Bool} {max : Option Nat} {s : List α} {j : Nat} (hj : j < reach c max s) :
    ∃ a, s[j]? = some a ∧ c a := by
  have hj' : j < (s.takeWhile c).length := lt_of_lt_of_le hj (reach_le c max s)
  have hget : (s.takeWhile c)[j]? = s[j]? := by
    obtain ⟨t, ht⟩ := List.takeWhile_prefix (l := s) c
    conv_rhs => rw [← ht]
    rw [List.getElem?_append_left hj']
  refine ⟨(s.takeWhile c)[j], ?_, ?_⟩
  · rw [← hget, List.getElem?_eq_getElem hj']
  · exact List.mem_takeWhile_imp (List.getElem_mem hj')

def turns (n k : Nat) : List Nat := ((List.range (k + 1)).filter (n ≤ ·)).reverse

theorem turns_zero (n : Nat) : turns n 0 = if n = 0 then [0] else [] := by
  by_cases hn : n = 0
  · simp [turns, hn]
  · simp [turns, hn]

theorem turns_succ (n k : Nat) :
    turns n (k + 1) = (turns (n - 1) k).map (· + 1) ++ if n = 0 then [0] else [] := by
  have hshift : ((List.range (k + 1)).map Nat.succ).filter (n ≤ ·) =
      ((List.range (k + 1)).filter (n - 1 ≤ ·)).map (· + 1) := by
    rw [List.filter_map]
    congr 1
    apply List.filter_congr
    intro j _
    simp only [Function.comp_apply, decide_eq_decide]
    omega
  rw [turns, List.range_succ_eq_map, List.filter_cons, hshift]
  by_cases hn : n = 0
  · simp [turns, hn]
  · simp [turns, hn]

theorem turns_eq (n k : Nat) :
    turns n k = (if n ≤ k then [k] else []) ++ ((List.range k).filter (n ≤ ·)).reverse := by
  rw [turns, List.range_succ, List.filter_append, List.reverse_append]
  by_cases h : n ≤ k
  · simp [h]
  · simp [h]

theorem head_turns (n k : Nat) : (turns n k).head? = if n ≤ k then some k else none := by
  by_cases h : n ≤ k
  · simp [turns_eq, h]
  · have hnone : turns n k = [] := by
      rw [List.eq_nil_iff_forall_not_mem]
      intro j hj
      simp only [turns, List.mem_reverse, List.mem_filter, List.mem_range, decide_eq_true_eq] at hj
      omega
    simp [hnone, h]

theorem flatMap_turns {β : Type*} (n k : Nat) (g : Nat → List β) (hg : ∀ j, j < k → g j = []) :
    (turns n k).flatMap g = if n ≤ k then g k else [] := by
  have hrest : ((List.range k).filter (n ≤ ·)).reverse.flatMap g = [] := by
    rw [List.flatMap_eq_nil_iff]
    intro j hj
    have hlt : j < k := by
      simp only [List.mem_reverse, List.mem_filter, List.mem_range] at hj
      exact hj.1
    exact hg j hlt
  rw [turns_eq, List.flatMap_append, hrest, List.append_nil]
  by_cases h : n ≤ k
  · simp [h]
  · simp [h]

theorem mem_turns {n k j : Nat} : j ∈ turns n k ↔ n ≤ j ∧ j ≤ k := by
  simp only [turns, List.mem_reverse, List.mem_filter, List.mem_range, decide_eq_true_eq]
  omega

@[simp] theorem run_cls_nil (c : α → Bool) (seen : List α) (caps) :
    run (.cls c) ⟨seen, [], caps⟩ = [] := rfl

theorem run_cls_cons (c : α → Bool) (seen rest : List α) (a : α) (caps) :
    run (.cls c) ⟨seen, a :: rest, caps⟩ = if c a then [⟨a :: seen, rest, caps⟩] else [] := rfl

theorem iterate_succ (f : Pos α → List (Pos α)) (fuel n : Nat) {max : Option Nat}
    (h : max ≠ some 0) (p : Pos α) :
    iterate f (fuel + 1) n max p =
      ((f p).flatMap fun q => if n = 0 ∧ q.rest.length = p.rest.length then []
        else iterate f fuel (n - 1) (max.map (· - 1)) q) ++ if n = 0 then [p] else [] := by
  by_cases hn : n = 0
  · simp [iterate, h, hn]
  · simp [iterate, h, hn]

section repeated
variable (c : α → Bool)

theorem iterate_cls (fuel n : Nat) (max : Option Nat) (p : Pos α) (hf : p.rest.length + n < fuel)
    (hm : ∀ m, max = some m → n ≤ m) :
    iterate (run (.cls c)) fuel n max p = (turns n (reach c max p.rest)).map p.skip := by
  induction fuel generalizing n max p with
  | zero => omega
  | succ fuel ih =>
    obtain ⟨seen, rest, caps⟩ := p
    by_cases h0 : max = some 0
    · have hn : n = 0 := Nat.le_zero.mp (hm 0 h0)
      simp [iterate, h0, hn, reach, turns_zero]
    · rw [iterate_succ _ _ _ h0]
      cases rest with
      | nil => rw [run_cls_nil, List.flatMap_nil, List.nil_append, reach_nil, turns_zero, apply_ite (List.map _)]; simp
      | cons a rest =>
        by_cases ha : c a
        · have hskip : ∀ j, (⟨a :: seen, rest, caps⟩ : Pos α).skip j
              = (⟨seen, a :: rest, caps⟩ : Pos α).skip (j + 1) := by
            intro j
            simp [Pos.skip]
          have hpred : ∀ m, max.map (· - 1) = some m → n - 1 ≤ m := by
            intro m hmem
            obtain ⟨m', hm', rfl⟩ := Option.map_eq_some_iff.mp hmem
            have := hm m' hm'
            omega
          have hfuel : rest.length + (n - 1) < fuel := by
            simp only [List.length_cons] at hf
            omega
          have hnext := ih (n - 1) (max.map (· - 1)) ⟨a :: seen, rest, caps⟩ hfuel hpred
          have hne : ¬ (n = 0 ∧ rest.length = (a :: rest).length) := by simp
          rw [reach_cons_of_pos ha h0, turns_succ, List.map_append, List.map_map, run_cls_cons,
            if_pos ha, List.flatMap_singleton, if_neg hne, hnext]
          congr 1
          · exact List.map_congr_left fun j _ => hskip j
          · rw [apply_ite (List.map _)]
            simp
        · rw [run_cls_cons, if_neg ha, List.flatMap_nil, List.nil_append, reach_cons_of_neg ha,
            turns_zero, apply_ite (List.map _)]
          simp

theorem run_rep (n : Nat) (max : Option Nat) (hm : ∀ m, max = some m → n ≤ m) (p : Pos α) :
    run (.rep n max (.cls c)) p = (turns n (reach c max p.rest)).map p.skip :=
  iterate_cls c _ n max p (by omega) hm

theorem mem_run_rep_exact {n : Nat} {p q : Pos α} (h : q ∈ run (.rep n (some n) (.cls c)) p) :
    ∃ u : List α, q.seen = u.reverse ++ p.seen ∧ u.length = n ∧ ∀ a ∈ u, c a := by
  rw [run_rep c n (some n) (fun m hm => le_of_eq (Option.some.inj hm))] at h
  obtain ⟨j, hj, rfl⟩ := List.mem_map.mp h
  obtain ⟨hle, hreach⟩ := mem_turns.mp hj
  have hn : reach c (some n) p.rest ≤ n := Nat.min_le_left _ _
  have hlen : reach c (some n) p.rest ≤ p.rest.length := reach_le_length c _ _
  refine ⟨p.rest.take j, rfl, ?_, ?_⟩
  · rw [List.length_take]
    omega
  · intro a ha
    obtain ⟨i, hi, rfl⟩ := List.mem_take_iff_getElem.mp ha
    have hi' : i < reach c (some n) p.rest := by omega
    obtain ⟨b, hb, hcb⟩ := reach_get hi'
    rw [List.getElem?_eq_getElem (by omega)] at hb
    rw [Option.some.inj hb]
    exact hcb

theorem head_run_rep (n : Nat) (max : Option Nat) (hm : ∀ m, max = some m → n ≤ m) (p : Pos α) :
    (run (.rep n max (.cls c)) p).head? =
      if n ≤ reach c max p.rest then some (p.skip (reach c max p.rest)) else none := by
  rw [run_rep c n max hm, List.head?_map, head_turns, apply_ite (Option.map _)]
  rfl

theorem run_rep_eol (n : Nat) (p : Pos α) :
    run (.seq (.rep n none (.cls c)) .eol) p =
      if n ≤ p.rest.length ∧ ∀ a ∈ p.rest, c a then [p.skip p.rest.length] else [] := by
  have hle : reach c none p.rest ≤ p.rest.length := reach_le_length c none p.rest
  rw [run, run_rep c n none (by simp), List.flatMap_map, flatMap_turns]
  · by_cases hall : ∀ a ∈ p.rest, c a
    · have hlen : reach c none p.rest = p.rest.length := by
        rw [reach, List.takeWhile_eq_self_iff.mpr hall]
      rw [hlen]
      by_cases hn : n ≤ p.rest.length
      · rw [if_pos hn, if_pos ⟨hn, hall⟩]
        simp [run]
      · rw [if_neg hn, if_neg fun h => hn h.1]
    · have hlt : reach c none p.rest < p.rest.length := by
        refine lt_of_le_of_ne hle fun heq => hall ?_
        have hpre := List.takeWhile_prefix (l := p.rest) c
        exact List.takeWhile_eq_self_iff.mp (hpre.eq_of_length heq)
      have hmore : (p.rest.drop (reach c none p.rest)).isEmpty = false := by
        rw [List.isEmpty_eq_false_iff, ne_eq, List.drop_eq_nil_iff]
        omega
      simp [hall, run, hmore]
  · intro j hj
    have hmore : (p.rest.drop j).isEmpty = false := by
      rw [List.isEmpty_eq_false_iff, ne_eq, List.drop_eq_nil_iff]
      omega
    simp [run, hmore]

theorem run_rep_lit [DecidableEq α] (n : Nat) (max : Option Nat) (hm : ∀ m, max = some m → n ≤ m)
    {b : α} (hb : ¬ c b) (p : Pos α) :
    run (.seq (.rep n max (.cls c)) (lit b)) p =
      if n ≤ reach c max p.rest ∧ p.rest[reach c max p.rest]? = some b
      then [p.skip (reach c max p.rest + 1)] else [] := by
  have hlit : ∀ j, run (lit b) (p.skip j) = if p.rest[j]? = some b then [p.skip (j + 1)] else [] := by
    intro j
    obtain ⟨seen, rest, caps⟩ := p
    by_cases hj : j < rest.length
    · have hdrop : rest.drop j = rest[j] :: rest.drop (j + 1) := List.drop_eq_getElem_cons hj
      have htake : rest.take (j + 1) = rest.take j ++ [rest[j]] := by
        rw [List.take_add_one, List.getElem?_eq_getElem hj]
        rfl
      simp only [lit, Pos.skip, hdrop, htake, run_cls_cons, List.getElem?_eq_getElem hj,
        decide_eq_true_eq, Option.some.injEq, List.reverse_append, List.reverse_cons,
        List.reverse_nil, List.nil_append, List.cons_append]
    · have hdrop : rest.drop j = [] := List.drop_eq_nil_iff.mpr (by omega)
      have hnone : rest[j]? = none := List.getElem?_eq_none (by omega)
      simp only [lit, Pos.skip, hdrop, hnone, run_cls_nil, reduceCtorEq, if_false]
  rw [run, run_rep c n max hm, List.flatMap_map, flatMap_turns]
  · rw [hlit, ← ite_and]
  · intro j hj
    obtain ⟨a, ha, hca⟩ := reach_get hj
    rw [hlit, ha, if_neg]
    intro heq
    exact hb (Option.some.inj heq ▸ hca)

end repeated

def times (f : Pos α → List (Pos α)) : Nat → Pos α → List (Pos α)
  | 0, p => [p]
  | n + 1, p => (f p).flatMap (times f n)

theorem iterate_exact (f : Pos α → List (Pos α)) {n fuel : Nat} (h : n < fuel) (p : Pos α) :
    iterate f fuel n (some n) p = times f n p := by
  induction n generalizing fuel p with
  | zero =>
    cases fuel with
    | zero => omega
    | succ fuel => rw [iterate, if_pos rfl, times]
  | succ n ih =>
    cases fuel with
    | zero => omega
    | succ fuel =>
      rw [iterate_succ _ _ _ (by simp), times, if_neg (by omega), List.append_nil]
      congr 1
      funext q
      rw [if_neg fun h => absurd h.1 (by omega)]
      exact ih (by omega) q

theorem searchFrom_split {r : Regex α} {seen rest : List α} {p q : Pos α}
    (h : searchFrom r seen rest = some (p, q)) :
    ∃ u, p.seen = u.reverse ++ seen ∧ u ++ p.rest = rest := by
  induction rest generalizing seen with
  | nil =>
    simp only [searchFrom, Option.map_eq_some_iff, Prod.mk.injEq] at h
    obtain ⟨_, _, rfl, _⟩ := h
    exact ⟨[], rfl, rfl⟩
  | cons a rest ih =>
    rw [searchFrom] at h
    cases hrun : (run r ⟨seen, a :: rest, []⟩).head? with
    | some q' =>
      rw [hrun] at h
      obtain ⟨rfl, _⟩ := Prod.mk.inj (Option.some.inj h)
      exact ⟨[], rfl, rfl⟩
    | none =>
      rw [hrun] at h
      obtain ⟨u, hseen, hrest⟩ := ih h
      refine ⟨a :: u, ?_, ?_⟩
      · simp [hseen]
      · simp [hrest]

/-- The second state of a run comes after the first: something was read in between. -/
def Pos.Ahead (p q : Pos α) : Prop := ∃ u, q.seen = u.reverse ++ p.seen ∧ u ++ q.rest = p.rest

theorem Pos.Ahead.refl (p : Pos α) : p.Ahead p := ⟨[], rfl, rfl⟩

theorem Pos.Ahead.trans {p q t : Pos α} (h : p.Ahead q) (h' : q.Ahead t) : p.Ahead t := by
  obtain ⟨u, hseen, hrest⟩ := h
  obtain ⟨v, hseen', hrest'⟩ := h'
  refine ⟨u ++ v, ?_, ?_⟩
  · rw [hseen', hseen, List.reverse_append, List.append_assoc]
  · rw [List.append_assoc, hrest', hrest]

theorem iterate_ahead {f : Pos α → List (Pos α)} (hf : ∀ p, ∀ q ∈ f p, p.Ahead q) (fuel min : Nat)
    (max : Option Nat) (p : Pos α) : ∀ q ∈ iterate f fuel min max p, p.Ahead q := by
  induction fuel generalizing min max p with
  | zero =>
    intro q hq
    unfold iterate at hq
    split at hq
    · rw [List.mem_singleton.mp hq]
      exact Pos.Ahead.refl p
    · cases hq
  | succ fuel ih =>
    intro q hq
    have hagain : ∀ q ∈ (f p).flatMap (fun q =>
        if min = 0 ∧ q.rest.length = p.rest.length then []
        else iterate f fuel (min - 1) (max.map (· - 1)) q), p.Ahead q := by
      intro q hq
      obtain ⟨t, ht, hq⟩ := List.mem_flatMap.mp hq
      split at hq
      · cases hq
      · exact (hf p t ht).trans (ih _ _ t q hq)
    unfold iterate at hq
    split at hq
    · rw [List.mem_singleton.mp hq]
      exact Pos.Ahead.refl p
    · dsimp only at hq
      split at hq
      · cases List.mem_append.mp hq with
        | inl hq => exact hagain q hq
        | inr hq =>
          rw [List.mem_singleton.mp hq]
          exact Pos.Ahead.refl p
      · exact hagain q hq

theorem run_ahead (r : Regex α) (p : Pos α) : ∀ q ∈ run r p, p.Ahead q := by
  induction r generalizing p with
  | eps =>
    intro q hq
    rw [List.mem_singleton.mp hq]
    exact Pos.Ahead.refl p
  | bol | eol =>
    intro q hq
    unfold run at hq
    split at hq
    · rw [List.mem_singleton.mp hq]
      exact Pos.Ahead.refl p
    · cases hq
  | cls c =>
    obtain ⟨seen, rest, caps⟩ := p
    intro q hq
    cases rest with
    | nil =>
      rw [run_cls_nil] at hq
      cases hq
    | cons a rest =>
      rw [run_cls_cons] at hq
      split at hq
      · rw [List.mem_singleton.mp hq]
        exact ⟨[a], rfl, rfl⟩
      · cases hq
  | seq r s ihr ihs =>
    intro q hq
    obtain ⟨t, ht, hq⟩ := List.mem_flatMap.mp hq
    exact (ihr p t ht).trans (ihs t q hq)
  | alt r s ihr ihs =>
    intro q hq
    cases List.mem_append.mp hq with
    | inl hq => exact ihr p q hq
    | inr hq => exact ihs p q hq
  | rep min max r ih => exact iterate_ahead ih _ min max p
  | group n r ih =>
    intro q hq
    obtain ⟨t, ht, rfl⟩ := List.mem_map.mp hq
    obtain ⟨u, hseen, hrest⟩ := ih p t ht
    exact ⟨u, hseen, hrest⟩

theorem mem_of_searchFrom {r : Regex α} {seen rest : List α} {p q : Pos α}
    (h : searchFrom r seen rest = some (p, q)) : q ∈ run r p := by
  induction rest generalizing seen with
  | nil =>
    rw [searchFrom, Option.map_eq_some_iff] at h
    obtain ⟨q', hq, he⟩ := h
    obtain ⟨rfl, rfl⟩ := Prod.mk.inj he
    exact List.mem_of_head? hq
  | cons a rest ih =>
    rw [searchFrom] at h
    cases hrun : (run r ⟨seen, a :: rest, []⟩).head? with
    | some q' =>
      rw [hrun] at h
      obtain ⟨rfl, rfl⟩ := Prod.mk.inj (Option.some.inj h)
      exact List.mem_of_head? hrun
    | none =>
      rw [hrun] at h
      exact ih h

/-- A search cuts the subject in three. -/
theorem search_lossless {r : Regex α} {s : List α} {m : Match α} (h : search r s = some m) :
    m.before ++ (m.text ++ m.suffix) = s := by
  unfold search at h
  obtain ⟨pq, hfrom, rfl⟩ := Option.map_eq_some_iff.mp h
  obtain ⟨p, q⟩ := pq
  obtain ⟨u, hseen, hrest⟩ := searchFrom_split hfrom
  obtain ⟨v, hseen', hrest'⟩ := run_ahead r p q (mem_of_searchFrom hfrom)
  dsimp only
  rw [Pos.since_eq hseen', hrest', hseen, List.append_nil, List.reverse_reverse, hrest]

theorem searchFrom_bol (r : Regex α) {seen : List α} (h : seen ≠ []) (rest : List α) :
    searchFrom (.seq .bol r) seen rest = none := by
  have hrun : ∀ seen : List α, seen ≠ [] → ∀ rest : List α,
      run (.seq .bol r) ⟨seen, rest, []⟩ = [] := by
    intro seen hne rest
    simp [run, hne]
  induction rest generalizing seen with
  | nil => simp [searchFrom, hrun seen h]
  | cons a rest ih =>
    rw [searchFrom, hrun seen h]
    exact ih (List.cons_ne_nil a seen)

theorem search_bol (r : Regex α) (s : List α) :
    search (.seq .bol r) s =
      (run r ⟨[], s, []⟩).head?.map fun q => ⟨[], Pos.since ⟨[], s, []⟩ q, q.rest, q.caps⟩ := by
  have hrun : run (.seq .bol r) ⟨[], s, []⟩ = run r ⟨[], s, []⟩ := by simp [run]
  cases s with
  | nil =>
    rw [search, searchFrom, hrun]
    cases (run r ⟨[], [], []⟩).head? with
    | some q => rfl
    | none => rfl
  | cons a s =>
    rw [search, searchFrom, hrun]
    cases (run r ⟨[], a :: s, []⟩).head? with
    | some q => simp
    | none => simp [searchFrom_bol r (List.cons_ne_nil a [])]

/-- The expression matches at the front or not at all. -/
def Anchored (r : Regex α) : Prop := ∀ s m, search r s = some m → m.before = []

theorem anchored_bol (r : Regex α) : Anchored (.seq .bol r) := by
  intro s m h
  rw [search_bol] at h
  obtain ⟨q, -, rfl⟩ := Option.map_eq_some_iff.mp h
  rfl

section replacing
variable (r : Regex α) (new : List α)

theorem replaceFrom_nil (fuel : Nat) (seen : List α) (h : run r ⟨seen, [], []⟩ = []) :
    replaceFrom r new fuel seen [] = [] := by
  cases fuel with
  | zero => rfl
  | succ fuel => simp [replaceFrom, searchFrom, h]

theorem replaceFrom_skip (fuel : Nat) (seen rest : List α) (a : α)
    (h : run r ⟨seen, a :: rest, []⟩ = []) :
    replaceFrom r new (fuel + 1) seen (a :: rest) = a :: replaceFrom r new (fuel + 1) (a :: seen) rest := by
  rw [replaceFrom, replaceFrom, searchFrom, h]
  cases hs : searchFrom r (a :: seen) rest with
  | none => simp only [List.head?_nil]
  | some found =>
    obtain ⟨p, q⟩ := found
    obtain ⟨u, hseen, _⟩ := searchFrom_split hs
    have hfrom : Pos.since ⟨a :: seen, rest, []⟩ p = u := Pos.since_eq hseen
    have hsince : Pos.since ⟨seen, a :: rest, []⟩ p = a :: u := by
      apply Pos.since_eq
      rw [hseen, List.reverse_cons, List.append_assoc]
      rfl
    simp only [List.head?_nil, hfrom, hsince, List.cons_append]

theorem replaceFrom_match (fuel : Nat) (seen rest : List α) (a : α) {q : Pos α}
    (h : (run r ⟨seen, a :: rest, []⟩).head? = some q) (hq : q.rest.length ≤ rest.length) :
    replaceFrom r new (fuel + 1) seen (a :: rest) = new ++ replaceFrom r new fuel q.seen q.rest := by
  have hlt : q.rest.length < (a :: rest).length := Nat.lt_succ_of_le hq
  have hnone : Pos.since ⟨seen, a :: rest, []⟩ ⟨seen, a :: rest, []⟩ = [] := Pos.since_eq rfl
  simp only [replaceFrom, searchFrom, h, hnone, hlt, if_true, List.nil_append]

end replacing

section classes
variable (c : α → Bool)

theorem drop_takeWhile_length (s : List α) : s.drop (s.takeWhile c).length = s.dropWhile c := by
  conv_lhs => rw [← List.takeWhile_append_dropWhile (p := c) (l := s)]
  rw [List.drop_left' (by rw [List.takeWhile_append_dropWhile])]

theorem search_plus (s : List α) :
    search (.seq .bol (plus (.cls c))) s =
      if s.takeWhile c = [] then none else some ⟨[], s.takeWhile c, s.dropWhile c, []⟩ := by
  have hhead := head_run_rep c 1 none (by simp) ⟨[], s, []⟩
  rw [search_bol, plus, hhead]
  by_cases hnil : s.takeWhile c = []
  · have hreach : ¬ 1 ≤ reach c none s := by simp [reach, hnil]
    rw [if_neg hreach, if_pos hnil]
    rfl
  · have hreach : 1 ≤ reach c none s := List.length_pos_of_ne_nil hnil
    have htake : s.take (s.takeWhile c).length = s.takeWhile c :=
      List.prefix_iff_eq_take.mp (List.takeWhile_prefix c) |>.symm
    rw [if_pos hreach, if_neg hnil, Option.map_some, Pos.since_skip, Pos.skip_rest, Pos.skip_caps, reach,
      htake, drop_takeWhile_length]

theorem replace_front (s : List α) : replace (.seq .bol (plus (.cls c))) [] s = s.dropWhile c := by
  have hlater : ∀ (fuel : Nat) (seen rest : List α), seen ≠ [] →
      replaceFrom (.seq .bol (plus (.cls c))) [] fuel seen rest = rest := by
    intro fuel seen rest hseen
    cases fuel with
    | zero => rfl
    | succ fuel => simp only [replaceFrom, searchFrom_bol _ hseen]
  have hrun : run (.seq .bol (plus (.cls c))) ⟨[], s, []⟩ = run (plus (.cls c)) ⟨[], s, []⟩ := by
    simp [run]
  cases s with
  | nil =>
    apply replaceFrom_nil
    rw [hrun, plus, run_rep c 1 none (by simp), reach_nil, turns_zero]
    rfl
  | cons a s =>
    by_cases ha : c a
    · have hreach : reach c none (a :: s) = (s.takeWhile c).length + 1 := by simp [reach, ha]
      have hhead := head_run_rep c 1 none (by simp) ⟨[], a :: s, []⟩
      rw [if_pos (by simp only [hreach]; omega), hreach] at hhead
      have hdrop : (a :: s).drop ((s.takeWhile c).length + 1) = s.dropWhile c := by
        rw [List.drop_succ_cons, drop_takeWhile_length]
      rw [replace, replaceFrom_match _ _ _ _ _ _ (by rw [hrun]; exact hhead), Pos.skip_rest, hdrop, hlater]
      · simp [ha]
      · simp [Pos.skip]
      · simpa only [Pos.skip_rest, hdrop] using (List.dropWhile_suffix c).length_le
    · rw [List.dropWhile_cons_of_neg ha, replace, replaceFrom_skip, hlater _ _ _ (List.cons_ne_nil a [])]
      rw [hrun, plus, run_rep c 1 none (by simp), reach_cons_of_neg ha, turns_zero]
      rfl

theorem rdropWhile_cons_of_exists {a : α} {l : List α} (h : ∃ b ∈ a :: l, ¬ c b) :
    (a :: l).rdropWhile c = a :: l.rdropWhile c := by
  rw [List.rdropWhile, List.reverse_cons, List.dropWhile_append]
  by_cases hl : l.reverse.dropWhile c = []
  · have hall : ∀ b ∈ l, c b := by
      intro b hb
      exact List.dropWhile_eq_nil_iff.mp hl b (List.mem_reverse.mpr hb)
    have ha : ¬ c a := by
      obtain ⟨b, hb, hcb⟩ := h
      cases List.mem_cons.mp hb with
      | inl he => exact he ▸ hcb
      | inr hb => exact absurd (hall b hb) hcb
    simp [hl, ha, List.rdropWhile]
  · simp [hl, List.rdropWhile]

theorem rdropWhile_dropWhile (s : List α) :
    ((s.dropWhile c).rdropWhile c).dropWhile c = (s.rdropWhile c).dropWhile c := by
  induction s with
  | nil => rfl
  | cons a s ih =>
    by_cases hall : ∀ b ∈ a :: s, c b
    · rw [List.rdropWhile_eq_nil_iff.mpr hall, List.dropWhile_eq_nil_iff.mpr hall, List.rdropWhile_nil]
    · have hex : ∃ b ∈ a :: s, ¬ c b := by
        by_contra hno
        exact hall fun b hb => not_not.mp fun hc => hno ⟨b, hb, hc⟩
      by_cases ha : c a
      · rw [rdropWhile_cons_of_exists c hex, List.dropWhile_cons_of_pos ha, List.dropWhile_cons_of_pos ha, ih]
      · rw [List.dropWhile_cons_of_neg ha]

theorem replace_end (s : List α) : replace (.seq (plus (.cls c)) .eol) [] s = s.rdropWhile c := by
  have hgo : ∀ (fuel : Nat) (seen rest : List α),
      replaceFrom (.seq (plus (.cls c)) .eol) [] (fuel + 1) seen rest = rest.rdropWhile c := by
    intro fuel seen rest
    have hend : ∀ (fuel : Nat) (seen : List α),
        replaceFrom (.seq (plus (.cls c)) .eol) [] fuel seen [] = [] := by
      intro fuel seen
      apply replaceFrom_nil
      rw [plus, run_rep_eol]
      simp
    induction rest generalizing seen with
    | nil => exact hend _ _
    | cons a rest ih =>
      have hrun : run (.seq (plus (.cls c)) .eol) ⟨seen, a :: rest, []⟩ = _ :=
        run_rep_eol c 1 ⟨seen, a :: rest, []⟩
      by_cases hall : ∀ b ∈ a :: rest, c b
      · rw [if_pos ⟨by simp, hall⟩] at hrun
        rw [List.rdropWhile_eq_nil_iff.mpr hall,
          replaceFrom_match _ _ _ _ _ _ (congrArg List.head? hrun) (by simp)]
        simp [hend]
      · rw [if_neg fun h => hall h.2] at hrun
        have hex : ∃ b ∈ a :: rest, ¬ c b := by
          by_contra hno
          exact hall fun b hb => not_not.mp fun hc => hno ⟨b, hb, hc⟩
        rw [rdropWhile_cons_of_exists c hex, replaceFrom_skip _ _ _ _ _ _ hrun, ih]
  exact hgo _ _ _

/-- Each longest stretch of at least `n` elements of a class is replaced. -/
def collapse (n : Nat) (new : List α) : List α → List α
  | [] => []
  | a :: s =>
    if n ≤ ((a :: s).takeWhile c).length then new ++ collapse n new (s.dropWhile c)
    else a :: collapse n new s
termination_by s => s.length
decreasing_by
  · simpa using Nat.lt_succ_of_le (List.dropWhile_suffix c).length_le
  · simp

theorem replaceFrom_rep {n : Nat} (hn : 0 < n) (new : List α) (fuel : Nat) (seen rest : List α)
    (hf : rest.length ≤ fuel) :
    replaceFrom (.rep n none (.cls c)) new (fuel + 1) seen rest = collapse c n new rest := by
  induction hs : rest.length using Nat.strong_induction_on generalizing fuel seen rest with
  | _ size ih =>
    cases rest with
    | nil =>
      rw [collapse]
      apply replaceFrom_nil
      rw [run_rep c n none (by simp), reach_nil, turns_zero, if_neg (by omega)]
      rfl
    | cons a rest =>
      have hhead := head_run_rep c n none (by simp) ⟨seen, a :: rest, []⟩
      simp only [List.length_cons] at hs hf
      by_cases hlong : n ≤ ((a :: rest).takeWhile c).length
      · have ha : c a := by
          by_contra ha
          rw [List.takeWhile_cons_of_neg ha, List.length_nil] at hlong
          omega
        have hdrop : (a :: rest).drop (reach c none (a :: rest)) = rest.dropWhile c := by
          rw [reach, drop_takeWhile_length, List.dropWhile_cons_of_pos ha]
        have hless : (rest.dropWhile c).length ≤ rest.length := (List.dropWhile_suffix c).length_le
        obtain ⟨fuel, rfl⟩ : ∃ k, fuel = k + 1 := ⟨fuel - 1, by omega⟩
        rw [if_pos (show n ≤ reach c none (a :: rest) from hlong)] at hhead
        rw [collapse, if_pos hlong, replaceFrom_match _ _ _ _ _ _ hhead, Pos.skip_rest, hdrop,
          ih _ (by omega) fuel _ _ (by omega) rfl]
        rw [Pos.skip_rest, hdrop]
        exact hless
      · rw [if_neg (show ¬ n ≤ reach c none (a :: rest) from hlong)] at hhead
        have hnone := List.head?_eq_none_iff.mp hhead
        rw [collapse, if_neg hlong, replaceFrom_skip _ _ _ _ _ _ hnone,
          ih _ (by omega) fuel _ _ (by omega) rfl]

theorem replace_rep {n : Nat} (hn : 0 < n) (new s : List α) :
    replace (.rep n none (.cls c)) new s = collapse c n new s :=
  replaceFrom_rep c hn new _ _ _ (le_refl _)

def ShortRuns (k : Nat) (s : List α) : Prop := ∀ t, t <:+ s → (t.takeWhile c).length ≤ k

theorem shortRuns_cons {k : Nat} {a : α} {s : List α} :
    ShortRuns c k (a :: s) ↔ ((a :: s).takeWhile c).length ≤ k ∧ ShortRuns c k s := by
  constructor
  · intro h
    exact ⟨h _ (List.suffix_refl _), fun t ht => h t (ht.trans (List.suffix_cons a s))⟩
  · intro h t ht
    cases List.suffix_cons_iff.mp ht with
    | inl heq => exact heq ▸ h.1
    | inr hs => exact h.2 t hs

theorem ShortRuns.append {k : Nat} {u s : List α} (hu : ∀ a ∈ u, c a) (hk : u.length ≤ k)
    (hs : s.takeWhile c = []) (h : ShortRuns c k s) : ShortRuns c k (u ++ s) := by
  induction u with
  | nil => exact h
  | cons a u ih =>
    have hu' : ∀ b ∈ u, c b := fun b hb => hu b (List.mem_cons_of_mem a hb)
    have hlead : ((a :: u) ++ s).takeWhile c = a :: u := by
      rw [List.takeWhile_append_of_pos hu, hs, List.append_nil]
    refine (shortRuns_cons c).mpr ⟨?_, ih hu' ((Nat.le_succ _).trans hk)⟩
    exact (congrArg List.length hlead).trans_le hk

theorem takeWhile_collapse {n : Nat} {new s : List α} (h : (s.takeWhile c).length < n) :
    (collapse c n new s).takeWhile c = s.takeWhile c := by
  induction s with
  | nil => rw [collapse]
  | cons a s ih =>
    rw [collapse, if_neg (by omega)]
    by_cases ha : c a
    · rw [List.takeWhile_cons_of_pos ha, List.length_cons] at h
      rw [List.takeWhile_cons_of_pos ha, List.takeWhile_cons_of_pos ha, ih (by omega)]
    · rw [List.takeWhile_cons_of_neg ha, List.takeWhile_cons_of_neg ha]

theorem shortRuns_collapse {n k : Nat} {new : List α} (hn : 0 < n) (hk : n ≤ k + 1)
    (hnew : ∀ a ∈ new, c a) (hlen : new.length ≤ k) (s : List α) :
    ShortRuns c k (collapse c n new s) := by
  induction s using collapse.induct (c := c) (n := n) with
  | case1 =>
    rw [collapse]
    intro t ht
    rw [List.suffix_nil.mp ht]
    exact Nat.zero_le k
  | case2 a s hlong ih =>
    rw [collapse, if_pos hlong]
    apply ShortRuns.append c hnew hlen _ ih
    have hstop : (s.dropWhile c).takeWhile c = [] := by
      cases hd : s.dropWhile c with
      | nil => rfl
      | cons b t =>
        have hb := List.head_dropWhile_not c (l := s) (by simp [hd])
        simp only [hd, List.head_cons] at hb
        exact List.takeWhile_cons_of_neg (by simp [hb])
    rw [takeWhile_collapse c (by rw [hstop]; exact hn), hstop]
  | case3 a s hshort ih =>
    have hlead : (collapse c n new (a :: s)).takeWhile c = (a :: s).takeWhile c :=
      takeWhile_collapse c (not_le.mp hshort)
    rw [collapse, if_neg hshort] at hlead ⊢
    refine (shortRuns_cons c).mpr ⟨?_, ih⟩
    rw [hlead]
    omega

theorem head?_collapse {n : Nat} (hn : 0 < n) (new : List α) {s : List α} (h : ∀ a ∈ s.head?, ¬ c a) :
    (collapse c n new s).head? = s.head? := by
  cases s with
  | nil => rw [collapse]
  | cons a s =>
    have ha : ¬ c a := h a rfl
    have hshort : ¬ n ≤ ((a :: s).takeWhile c).length := by
      rw [List.takeWhile_cons_of_neg ha, List.length_nil]
      omega
    rw [collapse, if_neg hshort]
    rfl

theorem getLast?_dropWhile {s : List α} (h : ∀ a ∈ s.getLast?, ¬ c a) :
    (s.dropWhile c).getLast? = s.getLast? := by
  conv_rhs => rw [← List.takeWhile_append_dropWhile (p := c) (l := s), List.getLast?_append]
  cases hrest : (s.dropWhile c).getLast? with
  | some a => rfl
  | none =>
    have hall := List.dropWhile_eq_nil_iff.mp (List.getLast?_eq_none_iff.mp hrest)
    cases hlast : (s.takeWhile c).getLast? with
    | none => rfl
    | some a =>
      rw [List.takeWhile_eq_self_iff.mpr hall] at hlast
      exact absurd (hall a (List.mem_of_getLast? hlast)) (h a hlast)

theorem getLast?_collapse {n : Nat} (hn : 0 < n) (new : List α) {s : List α}
    (h : ∀ a ∈ s.getLast?, ¬ c a) : (collapse c n new s).getLast? = s.getLast? := by
  induction s using collapse.induct (c := c) (n := n) with
  | case1 => rw [collapse]
  | case2 a s hlong ih =>
    have ha : c a := by
      by_contra ha
      rw [List.takeWhile_cons_of_neg ha, List.length_nil] at hlong
      omega
    have hlast := getLast?_dropWhile c h
    rw [List.dropWhile_cons_of_pos ha] at hlast
    rw [collapse, if_pos hlong, List.getLast?_append, ih (hlast ▸ h), hlast, List.getLast?_cons, Option.some_or]
  | case3 a s hshort ih =>
    rw [collapse, if_neg hshort]
    cases s with
    | nil => rw [collapse]
    | cons b s =>
      rw [List.getLast?_cons_cons] at h
      rw [List.getLast?_cons, ih h, List.getLast?_cons_cons, List.getLast?_cons, Option.getD_some]

theorem collapse_eq_self {n : Nat} {new : List α} (hn : 0 < n) {s : List α}
    (h : ∀ t, t <:+ s → n ≤ (t.takeWhile c).length → t.takeWhile c = new) :
    collapse c n new s = s := by
  induction s using collapse.induct (c := c) (n := n) with
  | case1 => rw [collapse]
  | case2 a s hlong ih =>
    have ha : c a := by
      by_contra ha
      rw [List.takeWhile_cons_of_neg ha, List.length_nil] at hlong
      omega
    have hsub : s.dropWhile c <:+ a :: s := (List.dropWhile_suffix c).trans (List.suffix_cons a s)
    rw [collapse, if_pos hlong, ih fun t ht => h t (ht.trans hsub), ← h _ (List.suffix_refl _) hlong,
      ← List.dropWhile_cons_of_pos ha, List.takeWhile_append_dropWhile]
  | case3 a s hshort ih =>
    rw [collapse, if_neg hshort, ih fun t ht => h t (ht.trans (List.suffix_cons a s))]

theorem ShortRuns.anti {d : α → Bool} {k : Nat} {s : List α} (hs : ShortRuns d k s)
    (h : ∀ a ∈ s, c a → d a) : ShortRuns c k s := by
  intro t ht
  have hle : ∀ u : List α, u ⊆ s → (u.takeWhile c).length ≤ (u.takeWhile d).length := by
    intro u
    induction u with
    | nil => simp
    | cons a u ih =>
      intro hsub
      have hu := ih (List.subset_of_cons_subset hsub)
      by_cases ha : c a
      · have hd := h a (hsub List.mem_cons_self) ha
        simpa [ha, hd] using hu
      · simp [ha]
  exact (hle t ht.subset).trans (hs t ht)

theorem ShortRuns.congr {k : Nat} {s t : List α} (hst : s.map c = t.map c) (h : ShortRuns c k s) :
    ShortRuns c k t := by
  induction t generalizing s with
  | nil =>
    rw [List.map_eq_nil_iff.mp hst] at h
    exact h
  | cons b t ih =>
    cases s with
    | nil => exact absurd hst (by simp)
    | cons a s =>
      obtain ⟨hab, htail⟩ := List.cons.inj hst
      have hlead : ((a :: s).takeWhile c).length = ((b :: t).takeWhile c).length := by
        have hmap : ∀ u : List α, (u.takeWhile c).length = ((u.map c).takeWhile id).length := by
          intro u
          rw [List.takeWhile_map, List.length_map]
          rfl
        rw [hmap, hmap, hst]
      have hs := (shortRuns_cons c).mp h
      exact (shortRuns_cons c).mpr ⟨hlead ▸ hs.1, ih htail hs.2⟩

theorem ShortRuns.take {k : Nat} {s : List α} (h : ShortRuns c k s) (n : Nat) :
    ShortRuns c k (s.take n) := by
  intro t ht
  obtain ⟨u, hu⟩ := ht
  have hsuf : t ++ s.drop n <:+ s := ⟨u, by rw [← List.append_assoc, hu, List.take_append_drop]⟩
  have hle : (t.takeWhile c).length ≤ ((t ++ s.drop n).takeWhile c).length := by
    rw [List.takeWhile_append]
    by_cases hall : (t.takeWhile c).length = t.length
    · simp [hall]
    · simp [hall]
  exact hle.trans (h _ hsuf)

theorem shortRuns_iff [DecidableEq α] (a : α) (k : Nat) (s : List α) :
    ShortRuns (fun b => decide (b = a)) k s ↔ ¬ List.replicate (k + 1) a <:+: s := by
  constructor
  · intro h hin
    obtain ⟨u, v, huv⟩ := hin
    have hlead := h (List.replicate (k + 1) a ++ v) ⟨u, by rw [← List.append_assoc, huv]⟩
    rw [List.takeWhile_append_of_pos (by simp), List.length_append, List.length_replicate] at hlead
    omega
  · intro h t ht
    by_contra hlong
    apply h
    have hall : ((t.takeWhile fun b => decide (b = a)).take (k + 1)) = List.replicate (k + 1) a := by
      apply List.eq_replicate_iff.mpr
      constructor
      · rw [List.length_take]
        omega
      · intro b hb
        simpa using List.mem_takeWhile_imp (List.mem_of_mem_take hb)
    rw [← hall]
    exact (((List.take_prefix _ _).trans (List.takeWhile_prefix _)).isInfix).trans ht.isInfix

theorem fullMatch_star (s : List α) : fullMatch (star (.cls c)) s = s.all c := by
  rw [Bool.eq_iff_iff, fullMatch, List.any_eq_true, star, run_rep c 0 none (by simp), List.all_eq_true]
  constructor
  · intro h
    obtain ⟨q, hq, hend⟩ := h
    obtain ⟨j, hj, rfl⟩ := List.mem_map.mp hq
    have hlen : s.length ≤ j := by simpa using hend
    have hall : s.takeWhile c = s := by
      apply (List.takeWhile_prefix c).eq_of_length_le
      exact hlen.trans (mem_turns.mp hj).2
    exact List.takeWhile_eq_self_iff.mp hall
  · intro hall
    refine ⟨_, List.mem_map.mpr ⟨s.length, mem_turns.mpr ⟨Nat.zero_le _, ?_⟩, rfl⟩, by simp⟩
    rw [reach, List.takeWhile_eq_self_iff.mpr hall]

end classes

/-- From every state the expression reads exactly the words of `L` that stand there. -/
def Reads (r : Regex α) (L : List α → Prop) : Prop :=
  ∀ p q, q ∈ run r p ↔ ∃ w, L w ∧ w <+: p.rest ∧ q = p.skip w.length

theorem reads_cls (c : α → Bool) : Reads (.cls c) fun w => ∃ a, c a ∧ w = [a] := by
  intro p q
  obtain ⟨seen, rest, caps⟩ := p
  cases rest with
  | nil =>
    rw [run_cls_nil]
    constructor
    · intro h
      exact absurd h List.not_mem_nil
    · intro h
      obtain ⟨w, ⟨a, _, hw⟩, hpre, _⟩ := h
      rw [hw] at hpre
      exact absurd hpre.length_le (by simp)
  | cons b rest =>
    rw [run_cls_cons]
    constructor
    · intro h
      by_cases hb : c b
      · rw [if_pos hb] at h
        exact ⟨[b], ⟨b, hb, rfl⟩, by simp, by simpa [Pos.skip] using h⟩
      · rw [if_neg hb] at h
        exact absurd h List.not_mem_nil
    · intro h
      obtain ⟨w, ⟨a, ha, hw⟩, hpre, hq⟩ := h
      subst hw
      have hab : a = b := (List.cons_prefix_cons.mp hpre).1
      subst hab
      rw [if_pos ha, hq]
      simp [Pos.skip]

theorem Reads.seq {r s : Regex α} {L M : List α → Prop} (hr : Reads r L) (hs : Reads s M) :
    Reads (.seq r s) fun w => ∃ u v, L u ∧ M v ∧ w = u ++ v := by
  intro p q
  rw [run, List.mem_flatMap]
  constructor
  · intro h
    obtain ⟨q', hq', hq⟩ := h
    obtain ⟨u, hu, hpu, rfl⟩ := (hr p q').mp hq'
    obtain ⟨v, hv, hpv, rfl⟩ := (hs _ q).mp hq
    obtain ⟨t, ht⟩ := hpu
    rw [Pos.skip_rest, ← ht, List.drop_left] at hpv
    refine ⟨u ++ v, ⟨u, v, hu, hv, rfl⟩, ?_, ?_⟩
    · rw [← ht]
      exact List.prefix_append_right_inj u |>.mpr hpv
    · rw [Pos.skip_skip, List.length_append]
  · intro h
    obtain ⟨w, ⟨u, v, hu, hv, hw⟩, hpre, hq⟩ := h
    subst hw
    obtain ⟨t, ht⟩ := hpre
    refine ⟨p.skip u.length, (hr p _).mpr ⟨u, hu, ⟨v ++ t, by rw [← ht, List.append_assoc]⟩, rfl⟩, ?_⟩
    refine (hs _ q).mpr ⟨v, hv, ?_, ?_⟩
    · rw [Pos.skip_rest, ← ht, List.append_assoc, List.drop_left]
      exact List.prefix_append v t
    · rw [hq, Pos.skip_skip, List.length_append]

theorem Reads.alt {r s : Regex α} {L M : List α → Prop} (hr : Reads r L) (hs : Reads s M) :
    Reads (.alt r s) fun w => L w ∨ M w := by
  intro p q
  rw [run, List.mem_append, hr p q, hs p q]
  constructor
  · intro h
    cases h with
    | inl h => exact h.imp fun w hw => ⟨.inl hw.1, hw.2⟩
    | inr h => exact h.imp fun w hw => ⟨.inr hw.1, hw.2⟩
  · intro h
    obtain ⟨w, hLM, hw⟩ := h
    cases hLM with
    | inl hL => exact .inl ⟨w, hL, hw⟩
    | inr hM => exact .inr ⟨w, hM, hw⟩

theorem Reads.congr {r : Regex α} {L M : List α → Prop} (hr : Reads r L) (h : ∀ w, L w ↔ M w) :
    Reads r M := by
  intro p q
  rw [hr p q]
  exact exists_congr fun w => and_congr_left fun _ => h w

theorem reads_eps : Reads (.eps : Regex α) (· = []) := by
  intro p q
  rw [run, List.mem_singleton]
  constructor
  · intro h
    exact ⟨[], rfl, List.nil_prefix, by rw [h, List.length_nil, Pos.skip_zero]⟩
  · intro h
    obtain ⟨w, hw, _, hq⟩ := h
    rw [hq, hw, List.length_nil, Pos.skip_zero]

section words
variable [DecidableEq α]

theorem reads_word (u : List α) : Reads (word u) (· = u) := by
  induction u with
  | nil => exact reads_eps
  | cons a u ih =>
    apply ((reads_cls _).seq ih).congr
    intro w
    constructor
    · intro h
      obtain ⟨x, y, ⟨b, hb, hx⟩, hy, hw⟩ := h
      have hba : b = a := by simpa using hb
      rw [hw, hx, hy, hba]
      rfl
    · intro hw
      exact ⟨[a], u, ⟨a, by simp, rfl⟩, rfl, hw⟩

theorem reads_oneOf (ws : List (List α)) : Reads (oneOf (ws.map word)) (· ∈ ws) := by
  induction ws with
  | nil =>
    apply (reads_cls _).congr
    intro w
    simp
  | cons u ws ih =>
    cases ws with
    | nil =>
      apply (reads_word u).congr
      intro w
      simp
    | cons v ws =>
      apply ((reads_word u).alt ih).congr
      intro w
      simp only [List.mem_cons]

end words

/-- A number of turns within the bounds of a repetition. -/
def Turns (n : Nat) (max : Option Nat) (k : Nat) : Prop := n ≤ k ∧ ∀ m, max = some m → k ≤ m

theorem Reads.mem_iterate {r : Regex α} {L : List α → Prop} (hr : Reads r L) (hne : ¬ L []) (fuel n : Nat)
    (max : Option Nat) (p q : Pos α) (hf : p.rest.length + n < fuel)
    (hm : ∀ m, max = some m → n ≤ m) : q ∈ iterate (run r) fuel n max p ↔
      ∃ ws : List (List α), (∀ x ∈ ws, L x) ∧ Turns n max ws.length ∧ ws.flatten <+: p.rest ∧
        q = p.skip ws.flatten.length := by
  induction fuel generalizing n max p q with
  | zero =>
    omega
  | succ fuel ih =>
    by_cases h0 : max = some 0
    · have hn : n = 0 := Nat.le_zero.mp (hm 0 h0)
      rw [h0, hn, iterate, if_pos rfl, List.mem_singleton]
      constructor
      · intro h
        exact ⟨[], by simp, by simp [Turns], List.nil_prefix, by simp [h]⟩
      · intro h
        obtain ⟨ws, _, hturns, _, hq⟩ := h
        have hnil : ws = [] := List.length_eq_zero_iff.mp (Nat.le_zero.mp (hturns.2 0 rfl))
        simp [hq, hnil]
    · have hpred : ∀ m, max.map (· - 1) = some m → n - 1 ≤ m := by
        intro m hmem
        obtain ⟨m', hm', rfl⟩ := Option.map_eq_some_iff.mp hmem
        have := hm m' hm'
        omega
      -- A word of `L` has an element, so a turn makes the rest shorter.
      have hfuel : ∀ u, L u → u <+: p.rest → (p.rest.drop u.length).length + (n - 1) < fuel ∧
          (p.rest.drop u.length).length ≠ p.rest.length := by
        intro u hu hpre
        have hpos : u.length ≠ 0 := fun hz => hne (List.length_eq_zero_iff.mp hz ▸ hu)
        have hle := hpre.length_le
        rw [List.length_drop]
        omega
      rw [iterate_succ _ _ _ h0, List.mem_append, List.mem_flatMap]
      constructor
      · intro h
        cases h with
        | inl h =>
          obtain ⟨q', hq', hq⟩ := h
          obtain ⟨u, hu, hpre, rfl⟩ := (hr p q').mp hq'
          obtain ⟨hlt, hshort⟩ := hfuel u hu hpre
          rw [Pos.skip_rest, if_neg fun h => hshort h.2] at hq
          obtain ⟨ws, hL, hturns, hws, rfl⟩ := (ih _ _ _ _ hlt hpred).mp hq
          obtain ⟨t, ht⟩ := hpre
          rw [Pos.skip_rest, ← ht, List.drop_left] at hws
          refine ⟨u :: ws, ?_, ⟨?_, ?_⟩, ?_, ?_⟩
          · simpa using ⟨hu, hL⟩
          · have := hturns.1
            simp only [List.length_cons]
            omega
          · intro m hmax
            have hmm := hturns.2 (m - 1) (by rw [hmax]; rfl)
            have hm0 : m ≠ 0 := fun hz => h0 (hz ▸ hmax)
            simp only [List.length_cons]
            omega
          · rw [List.flatten_cons, ← ht]
            exact (List.prefix_append_right_inj u).mpr hws
          · rw [List.flatten_cons, List.length_append, Pos.skip_skip]
        | inr h =>
          by_cases hn : n = 0
          · rw [if_pos hn, List.mem_singleton] at h
            exact ⟨[], by simp, by simp [Turns, hn], List.nil_prefix, by simp [h]⟩
          · rw [if_neg hn] at h
            exact absurd h List.not_mem_nil
      · intro h
        obtain ⟨ws, hL, hturns, hpre, hq⟩ := h
        cases ws with
        | nil =>
          have hn : n = 0 := Nat.le_zero.mp hturns.1
          rw [if_pos hn]
          exact .inr (by simp [hq])
        | cons u ws =>
          rw [List.flatten_cons] at hpre hq
          have hu : L u := hL u List.mem_cons_self
          have hup : u <+: p.rest := (List.prefix_append u _).trans hpre
          obtain ⟨hlt, hshort⟩ := hfuel u hu hup
          refine .inl ⟨p.skip u.length, (hr p _).mpr ⟨u, hu, hup, rfl⟩, ?_⟩
          rw [Pos.skip_rest, if_neg fun h => hshort h.2, ih _ _ _ _ hlt hpred]
          obtain ⟨t, ht⟩ := hpre
          refine ⟨ws, fun x hx => hL x (List.mem_cons_of_mem u hx), ⟨?_, ?_⟩, ?_, ?_⟩
          · have := hturns.1
            simp only [List.length_cons] at this
            omega
          · intro m hmax
            obtain ⟨m', hm', rfl⟩ := Option.map_eq_some_iff.mp hmax
            have := hturns.2 m' hm'
            simp only [List.length_cons] at this
            omega
          · rw [Pos.skip_rest, ← ht, List.append_assoc, List.drop_left]
            exact List.prefix_append _ t
          · rw [hq, Pos.skip_skip, List.length_append]
theorem Reads.rep {r : Regex α} {L : List α → Prop} (hr : Reads r L) (hne : ¬ L []) (n : Nat)
    (max : Option Nat) (hm : ∀ m, max = some m → n ≤ m) :
    Reads (.rep n max r) fun w => ∃ ws : List (List α), (∀ x ∈ ws, L x) ∧ Turns n max ws.length ∧ w = ws.flatten := by
  intro p q
  rw [run, hr.mem_iterate hne _ n max p q (by omega) hm]
  constructor
  · intro h
    obtain ⟨ws, hL, hturns, hpre, hq⟩ := h
    exact ⟨ws.flatten, ⟨ws, hL, hturns, rfl⟩, hpre, hq⟩
  · intro h
    obtain ⟨w, ⟨ws, hL, hturns, hw⟩, hpre, hq⟩ := h
    subst hw
    exact ⟨ws, hL, hturns, hpre, hq⟩

theorem Reads.fullMatch {r : Regex α} {L : List α → Prop} (hr : Reads r L) (s : List α) :
    fullMatch (.seq .bol (.seq r .eol)) s ↔ L s := by
  rw [Regex.fullMatch, List.any_eq_true]
  have hrun : run (.seq .bol (.seq r .eol)) ⟨[], s, []⟩ = (run r ⟨[], s, []⟩).flatMap (run .eol) := by
    simp [run]
  constructor
  · intro h
    obtain ⟨q, hq, _⟩ := h
    rw [hrun] at hq
    obtain ⟨q', hq', hend⟩ := List.mem_flatMap.mp hq
    obtain ⟨w, hL, hpre, rfl⟩ := (hr _ q').mp hq'
    have hlen : s.length ≤ w.length := by
      by_contra hlt
      have hmore : (s.drop w.length).isEmpty = false := by simpa using hlt
      simp [run, hmore] at hend
    have hw : w = s := hpre.eq_of_length_le hlen
    exact hw ▸ hL
  · intro hL
    refine ⟨Pos.skip ⟨[], s, []⟩ s.length, ?_, by simp⟩
    rw [hrun, List.mem_flatMap]
    exact ⟨_, (hr _ _).mpr ⟨s, hL, List.prefix_refl s, rfl⟩, by simp [run]⟩
end Lib.Regex
