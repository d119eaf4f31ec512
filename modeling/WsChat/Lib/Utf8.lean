import WsChat.Lib.Bytes

/-! Well-formed UTF-8 and the search for the first ill-formed sequence. -/
namespace Lib.Utf8

def isTail (b : UInt8) : Bool := 0x80 ≤ b && b ≤ 0xBF

def second3 (a b : UInt8) : Bool :=
  if a == 0xE0 then 0xA0 ≤ b && b ≤ 0xBF
  else if a == 0xED then 0x80 ≤ b && b ≤ 0x9F
  else isTail b

def second4 (a b : UInt8) : Bool :=
  if a == 0xF0 then 0x90 ≤ b && b ≤ 0xBF
  else if a == 0xF4 then 0x80 ≤ b && b ≤ 0x8F
  else isTail b

/-- Length of the well-formed character at the front, if there is one. -/
def charLength : Bytes → Option Nat
  | [] => none
  | a :: t =>
    if a < 0x80 then some 1
    else if 0xC2 ≤ a && a ≤ 0xDF then
      match t with
      | b :: _ => if isTail b then some 2 else none
      | _ => none
    else if 0xE0 ≤ a && a ≤ 0xEF then
      match t with
      | b :: c :: _ => if second3 a b && isTail c then some 3 else none
      | _ => none
    else if 0xF0 ≤ a && a ≤ 0xF4 then
      match t with
      | b :: c :: d :: _ => if second4 a b && isTail c && isTail d then some 4 else none
      | _ => none
    else none

/-- `utf8::find_invalid`: the number of bytes before the first ill-formed sequence, all
of them when there is none. The fuel is the number of bytes. -/
def findInvalidFrom : Nat → Bytes → Nat
  | 0, _ => 0
  | fuel + 1, s =>
    match charLength s with
    | none => 0
    | some n => n + findInvalidFrom fuel (s.drop n)

def findInvalid (s : Bytes) : Nat := findInvalidFrom s.length s

/-- The bytes of one well-formed character. -/
def IsChar (c : Bytes) : Prop := charLength c = some c.length

def WellFormed (s : Bytes) : Prop := ∃ cs : List Bytes, (∀ c ∈ cs, IsChar c) ∧ cs.flatten = s

theorem charLength_local {s : Bytes} {n : Nat} (h : charLength s = some n) :
    ∃ c t, s = c ++ t ∧ c.length = n ∧ 0 < n ∧ ∀ t', charLength (c ++ t') = some n := by
  cases s with
  | nil => simp [charLength] at h
  | cons a t =>
    unfold charLength at h
    by_cases h1 : a < 0x80
    · simp only [if_pos h1, Option.some.injEq] at h
      subst h
      exact ⟨[a], t, rfl, rfl, Nat.one_pos, fun t' => by simp [charLength, h1]⟩
    simp only [if_neg h1] at h
    by_cases h2 : 0xC2 ≤ a ∧ a ≤ 0xDF
    · cases t with
      | nil => simp [h2] at h
      | cons b t =>
        obtain ⟨hb, rfl⟩ : isTail b ∧ 2 = n := by simpa [h2] using h
        exact ⟨[a, b], t, rfl, rfl, by omega, fun t' => by simp [charLength, h1, h2, hb]⟩
    by_cases h3 : 0xE0 ≤ a ∧ a ≤ 0xEF
    · cases t with
      | nil => simp [h2, h3] at h
      | cons b t =>
        cases t with
        | nil => simp [h2, h3] at h
        | cons c t =>
          obtain ⟨hb, rfl⟩ : (second3 a b ∧ isTail c) ∧ 3 = n := by simpa [h2, h3] using h
          exact ⟨[a, b, c], t, rfl, rfl, by omega, fun t' => by simp [charLength, h1, h2, h3, hb]⟩
    by_cases h4 : 0xF0 ≤ a ∧ a ≤ 0xF4
    · cases t with
      | nil => simp [h2, h3, h4] at h
      | cons b t =>
        cases t with
        | nil => simp [h2, h3, h4] at h
        | cons c t =>
          cases t with
          | nil => simp [h2, h3, h4] at h
          | cons d t =>
            obtain ⟨hb, rfl⟩ : ((second4 a b ∧ isTail c) ∧ isTail d) ∧ 4 = n := by
              simpa [h2, h3, h4] using h
            exact ⟨[a, b, c, d], t, rfl, rfl, by omega,
              fun t' => by simp [charLength, h1, h2, h3, h4, hb]⟩
    · simp [h2, h3, h4] at h

theorem charLength_pos {s : Bytes} {n : Nat} (h : charLength s = some n) : 0 < n := by
  obtain ⟨_, _, _, _, hn, _⟩ := charLength_local h
  exact hn

theorem charLength_le {s : Bytes} {n : Nat} (h : charLength s = some n) : n ≤ s.length := by
  obtain ⟨c, t, rfl, rfl, _, _⟩ := charLength_local h
  simp

theorem charLength_append {s : Bytes} {n : Nat} (h : charLength s = some n) (t : Bytes) :
    charLength (s ++ t) = some n := by
  obtain ⟨c, t₀, rfl, _, _, hc⟩ := charLength_local h
  rw [List.append_assoc]
  exact hc _

theorem isChar_take {s : Bytes} {n : Nat} (h : charLength s = some n) : IsChar (s.take n) := by
  obtain ⟨c, t, rfl, rfl, _, hc⟩ := charLength_local h
  have hself := hc []
  rw [List.append_nil] at hself
  rw [List.take_left]
  exact hself

theorem wellFormed_nil : WellFormed [] := ⟨[], by simp, rfl⟩

theorem WellFormed.append {s t : Bytes} (hs : WellFormed s) (ht : WellFormed t) :
    WellFormed (s ++ t) := by
  obtain ⟨cs, hcs, rfl⟩ := hs
  obtain ⟨ds, hds, rfl⟩ := ht
  refine ⟨cs ++ ds, ?_, List.flatten_append⟩
  intro c hc
  cases List.mem_append.mp hc with
  | inl h => exact hcs c h
  | inr h => exact hds c h

theorem wellFormed_singleton {a : UInt8} (ha : a < 0x80) : WellFormed [a] :=
  ⟨[[a]], by simp [IsChar, charLength, ha], rfl⟩

theorem findInvalidFrom_of_none {s : Bytes} (h : charLength s = none) (fuel : Nat) :
    findInvalidFrom fuel s = 0 := by
  cases fuel with
  | zero => rfl
  | succ fuel => simp only [findInvalidFrom, h]

theorem findInvalidFrom_fuel (fuel fuel' : Nat) (s : Bytes) (h : s.length ≤ fuel)
    (h' : s.length ≤ fuel') : findInvalidFrom fuel s = findInvalidFrom fuel' s := by
  induction fuel generalizing fuel' s with
  | zero =>
    have hs : s = [] := List.length_eq_zero_iff.mp (Nat.le_zero.mp h)
    rw [hs, findInvalidFrom_of_none rfl, findInvalidFrom_of_none rfl]
  | succ fuel ih =>
    cases hc : charLength s with
    | none => rw [findInvalidFrom_of_none hc, findInvalidFrom_of_none hc]
    | some n =>
      have hpos := charLength_pos hc
      have hle := charLength_le hc
      obtain ⟨fuel', rfl⟩ : ∃ k, fuel' = k + 1 := ⟨fuel' - 1, by omega⟩
      have hnext := ih fuel' (s.drop n) (by rw [List.length_drop]; omega) (by rw [List.length_drop]; omega)
      simp only [findInvalidFrom, hc, hnext]

theorem findInvalid_of_none {s : Bytes} (h : charLength s = none) : findInvalid s = 0 :=
  findInvalidFrom_of_none h _

theorem findInvalid_of_some {s : Bytes} {n : Nat} (h : charLength s = some n) :
    findInvalid s = n + findInvalid (s.drop n) := by
  have hpos := charLength_pos h
  have hle := charLength_le h
  have hone : findInvalid s = findInvalidFrom (s.length + 1) s :=
    findInvalidFrom_fuel _ _ s (Nat.le_refl _) (Nat.le_succ _)
  have hdrop : findInvalidFrom s.length (s.drop n) = findInvalid (s.drop n) :=
    findInvalidFrom_fuel _ _ _ (by rw [List.length_drop]; omega) (Nat.le_refl _)
  rw [hone, findInvalidFrom, h]
  simp only [hdrop]

/-- What stands before the place found is well formed, and no character stands there. -/
theorem findInvalid_spec (s : Bytes) :
    findInvalid s ≤ s.length ∧ WellFormed (s.take (findInvalid s)) ∧
      charLength (s.drop (findInvalid s)) = none := by
  induction hlen : s.length using Nat.strongRecOn generalizing s with
  | _ k ih =>
    cases hc : charLength s with
    | none =>
      rw [findInvalid_of_none hc]
      exact ⟨Nat.zero_le _, wellFormed_nil, hc⟩
    | some n =>
      have hpos := charLength_pos hc
      have hle := charLength_le hc
      have hshort : (s.drop n).length = k - n := by rw [List.length_drop, hlen]
      obtain ⟨hin, hwell, hstop⟩ := ih (k - n) (by omega) (s.drop n) hshort
      have hchar : WellFormed (s.take n) := ⟨[s.take n], by simpa using isChar_take hc, by simp⟩
      rw [findInvalid_of_some hc]
      refine ⟨by omega, ?_, ?_⟩
      · rw [List.take_add]
        exact hchar.append hwell
      · rw [← List.drop_drop]
        exact hstop

theorem wellFormed_iff (s : Bytes) : WellFormed s ↔ findInvalid s = s.length := by
  constructor
  · intro h
    obtain ⟨cs, hcs, rfl⟩ := h
    induction cs with
    | nil => exact findInvalid_of_none rfl
    | cons c cs ih =>
      have hc : charLength ((c :: cs).flatten) = some c.length :=
        charLength_append (hcs c List.mem_cons_self) cs.flatten
      rw [findInvalid_of_some hc, List.flatten_cons, List.drop_left, List.length_append,
        ih fun d hd => hcs d (List.mem_cons_of_mem c hd)]
  · intro h
    have hwell := (findInvalid_spec s).2.1
    rwa [h, List.take_length] at hwell

end Lib.Utf8
