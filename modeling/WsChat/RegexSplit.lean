import WsChat.RegexParser
import WsChat.Lib.Matching

/-! `regex_split`: the pieces of a text between the matches of an expression, for every search
that cuts a text in three, and when its loop comes to an end. -/
namespace WsChat
open Lib

/-- `std::smatch` after a successful search in `s`. -/
structure Cut (s : Bytes) where
  before : Bytes
  text : Bytes
  suffix : Bytes
  lossless : before ++ (text ++ suffix) = s

abbrev RegexSearch := (s : Bytes) → Option (Cut s)

def RegexSearch.ofRegex (rx : Regex UInt8) : RegexSearch := fun s =>
  (rx.search s).pmap (fun ma h => ⟨ma.before, ma.text, ma.suffix, h⟩) fun _ h => Regex.search_lossless h

section split
variable (search : RegexSearch)

def regexSplitBounded : Nat → Bytes → List Bytes → List Bytes
  | max + 2, input, res =>
    match search input with
    | some ma => regexSplitBounded (max + 1) ma.suffix (res ++ [ma.before])
    | none => res ++ [input]
  | _, input, res => res ++ [input]

/-- The loop without a bound, for as many turns as the fuel allows. -/
def regexSplitLoop : Nat → Bytes → List Bytes → Option (List Bytes)
  | 0, _, _ => none
  | fuel + 1, input, res =>
    match search input with
    | some ma => regexSplitLoop fuel ma.suffix (res ++ [ma.before])
    | none => some (res ++ [input])

def regexSplit (fuel : Nat) (input : Bytes) (max : Int) : Option (List Bytes) :=
  if 0 < max then some (regexSplitBounded search max.toNat input [])
  else regexSplitLoop search fuel input []

/-- Matches that follow each other: the pieces in front of them, their texts, and what is left. -/
inductive Successive : Bytes → List Bytes → List Bytes → Bytes → Prop
  | done (input : Bytes) : Successive input [] [] input
  | step {input rest : Bytes} {ma : Cut input} {pieces seps : List Bytes} (found : search input = some ma)
      (next : Successive ma.suffix pieces seps rest) :
      Successive input (ma.before :: pieces) (ma.text :: seps) rest

def interleave : List Bytes → List Bytes → Bytes
  | piece :: pieces, sep :: seps => piece ++ (sep ++ interleave pieces seps)
  | pieces, _ => pieces.flatten

/-- The next match is empty and at the very front: what is left is the text itself. -/
def Stalls (t : Bytes) : Prop := ∃ ma : Cut t, search t = some ma ∧ ma.before = [] ∧ ma.text = []

/-- The result is a lossless split. -/
structure IsSplit (input : Bytes) (max : Int) (res : List Bytes) : Prop where
  nonempty : res ≠ []
  bounded : 0 < max → (res.length : Int) ≤ max
  lossless : ∃ pieces seps rest, Successive search input pieces seps rest ∧ res = pieces ++ [rest] ∧
    interleave res seps = input
  last : max ≤ 0 → ∀ piece, res.getLast? = some piece → search piece = none

def Splits (input : Bytes) (max : Int) : Prop :=
  ∃ res, (∃ turns, ∀ fuel, turns ≤ fuel → regexSplit search fuel input max = some res) ∧
    IsSplit search input max res

end split

variable {search : RegexSearch} {input rest t : Bytes} {pieces seps res out : List Bytes}

theorem Successive.interleave (h : Successive search input pieces seps rest) :
    WsChat.interleave (pieces ++ [rest]) seps = input := by
  induction h with
  | done input => simp [WsChat.interleave]
  | @step input rest ma pieces seps found next ih =>
    have hcut := ma.lossless
    rw [List.cons_append, WsChat.interleave, ih]
    exact hcut

theorem regexSplitBounded_spec (n : Nat) (input : Bytes) (res : List Bytes) :
    ∃ pieces seps rest, Successive search input pieces seps rest ∧ pieces.length ≤ n ∧
      regexSplitBounded search (n + 1) input res = res ++ (pieces ++ [rest]) := by
  induction n generalizing input res with
  | zero => exact ⟨[], [], input, .done input, le_refl 0, rfl⟩
  | succ n ih =>
    cases hsearch : search input with
    | none =>
      refine ⟨[], [], input, .done input, Nat.zero_le _, ?_⟩
      simp [regexSplitBounded, hsearch]
    | some ma =>
      obtain ⟨pieces, seps, rest, hnext, hlen, hres⟩ := ih ma.suffix (res ++ [ma.before])
      refine ⟨ma.before :: pieces, ma.text :: seps, rest, .step hsearch hnext, Nat.succ_le_succ hlen, ?_⟩
      rw [regexSplitBounded, hsearch]
      simpa only [List.append_assoc, List.cons_append, List.nil_append] using hres

theorem regexSplitLoop_spec {fuel : Nat} (h : regexSplitLoop search fuel input res = some out) :
    ∃ pieces seps rest, Successive search input pieces seps rest ∧ search rest = none ∧
      out = res ++ (pieces ++ [rest]) := by
  induction fuel generalizing input res with
  | zero => cases h
  | succ fuel ih =>
    rw [regexSplitLoop] at h
    cases hsearch : search input with
    | none =>
      rw [hsearch] at h
      exact ⟨[], [], input, .done input, hsearch, (Option.some.inj h).symm⟩
    | some ma =>
      rw [hsearch] at h
      obtain ⟨pieces, seps, rest, hnext, hlast, hout⟩ := ih h
      refine ⟨ma.before :: pieces, ma.text :: seps, rest, .step hsearch hnext, hlast, ?_⟩
      simpa only [List.append_assoc, List.cons_append, List.nil_append] using hout

theorem regexSplitLoop_mono {fuel more : Nat} (h : regexSplitLoop search fuel input res = some out)
    (hle : fuel ≤ more) : regexSplitLoop search more input res = some out := by
  induction fuel generalizing more input res with
  | zero => cases h
  | succ fuel ih =>
    cases more with
    | zero => omega
    | succ more =>
      rw [regexSplitLoop] at h ⊢
      cases hsearch : search input with
      | none =>
        rw [hsearch] at h
        exact h
      | some ma =>
        rw [hsearch] at h
        exact ih h (Nat.le_of_succ_le_succ hle)

theorem Stalls.suffix {ma : Cut t} (h : Stalls search t) (hma : search t = some ma) : ma.suffix = t := by
  obtain ⟨ma', hsearch, hbefore, htext⟩ := h
  obtain rfl : ma' = ma := Option.some.inj (hsearch.symm.trans hma)
  have hcut := ma'.lossless
  rw [hbefore, htext] at hcut
  simpa using hcut

theorem Cut.suffix_lt {ma : Cut t} (hma : search t = some ma) (h : ¬ Stalls search t) :
    ma.suffix.length < t.length := by
  have hlen : t.length = ma.before.length + (ma.text.length + ma.suffix.length) := by
    rw [← List.length_append, ← List.length_append, ma.lossless]
  have hread : ma.before.length + ma.text.length ≠ 0 := by
    intro hzero
    have hbefore : ma.before = [] := List.length_eq_zero_iff.mp (by omega)
    have htext : ma.text = [] := List.length_eq_zero_iff.mp (by omega)
    exact h ⟨ma, hma, hbefore, htext⟩
  omega

theorem regexSplitLoop_returns (fuel : Nat) (res : List Bytes) (hfuel : input.length < fuel)
    (h : ∀ pieces seps rest, Successive search input pieces seps rest → ¬ Stalls search rest) :
    ∃ out, regexSplitLoop search fuel input res = some out := by
  induction fuel generalizing input res with
  | zero => omega
  | succ fuel ih =>
    rw [regexSplitLoop]
    cases hsearch : search input with
    | none => exact ⟨_, rfl⟩
    | some ma =>
      have hless := Cut.suffix_lt hsearch (h [] [] input (.done input))
      refine ih (res ++ [ma.before]) (by omega) ?_
      intro pieces seps rest hnext
      exact h _ _ rest (.step hsearch hnext)

/-- A text that stalls the loop is searched over and over. -/
theorem regexSplitLoop_stalls (h : Stalls search t) (fuel : Nat) (res : List Bytes) :
    regexSplitLoop search fuel t res = none := by
  induction fuel generalizing res with
  | zero => rfl
  | succ fuel ih =>
    rw [regexSplitLoop]
    cases hsearch : search t with
    | none =>
      obtain ⟨ma, hma, -⟩ := h
      rw [hsearch] at hma
      cases hma
    | some ma =>
      have hsame := h.suffix hsearch
      dsimp only
      rw [hsame]
      exact ih _

theorem Successive.diverges (h : Successive search input pieces seps rest) (hstall : Stalls search rest)
    (fuel : Nat) (res : List Bytes) : regexSplitLoop search fuel input res = none := by
  induction h generalizing fuel res with
  | done input => exact regexSplitLoop_stalls hstall fuel res
  | @step input rest ma pieces seps found next ih =>
    cases fuel with
    | zero => rfl
    | succ fuel =>
      rw [regexSplitLoop, found]
      exact ih hstall fuel _

theorem IsSplit.of_bounded {max : Int} (h : 0 < max) :
    IsSplit search input max (regexSplitBounded search max.toNat input []) := by
  obtain ⟨n, hn⟩ : ∃ n, max.toNat = n + 1 := Nat.exists_eq_succ_of_ne_zero (by omega)
  have hspec : ∃ pieces seps rest, Successive search input pieces seps rest ∧ pieces.length ≤ n ∧
      regexSplitBounded search (n + 1) input [] = [] ++ (pieces ++ [rest]) := regexSplitBounded_spec n input []
  obtain ⟨pieces, seps, rest, hsucc, hlen, hres⟩ := hspec
  rw [hn, hres, List.nil_append]
  refine ⟨by simp, ?_, ⟨pieces, seps, rest, hsucc, rfl, hsucc.interleave⟩, ?_⟩
  · intro _
    rw [List.length_append, List.length_singleton]
    omega
  · intro hle
    omega

theorem IsSplit.of_loop {max : Int} (h : ¬ 0 < max) {fuel : Nat}
    (hout : regexSplitLoop search fuel input [] = some out) : IsSplit search input max out := by
  obtain ⟨pieces, seps, rest, hsucc, hlast, rfl⟩ := regexSplitLoop_spec hout
  rw [List.nil_append]
  refine ⟨by simp, fun hpos => absurd hpos h, ⟨pieces, seps, rest, hsucc, rfl, hsucc.interleave⟩, ?_⟩
  intro _ piece hpiece
  rw [List.getLast?_concat] at hpiece
  exact Option.some.inj hpiece ▸ hlast

/-- `regex_split` returns a lossless split exactly when it is given a bound, or no text that its
matches lead to has an empty match at the very front. -/
theorem regexSplit_splits (search : RegexSearch) (input : Bytes) (max : Int) :
    Splits search input max ↔
      0 < max ∨ ∀ pieces seps rest, Successive search input pieces seps rest → ¬ Stalls search rest := by
  by_cases hmax : 0 < max
  · have hcall : ∀ fuel, regexSplit search fuel input max =
        some (regexSplitBounded search max.toNat input []) := fun fuel => if_pos hmax
    refine ⟨fun _ => .inl hmax, fun _ => ?_⟩
    exact ⟨_, ⟨0, fun fuel _ => hcall fuel⟩, IsSplit.of_bounded hmax⟩
  · have hcall : ∀ fuel, regexSplit search fuel input max = regexSplitLoop search fuel input [] :=
      fun fuel => if_neg hmax
    constructor
    · intro hsplits
      obtain ⟨res, ⟨turns, hres⟩, -⟩ := hsplits
      have hret : regexSplitLoop search turns input [] = some res := by
        rw [← hcall]
        exact hres turns le_rfl
      refine .inr ?_
      intro pieces seps rest hsucc hstall
      rw [hsucc.diverges hstall turns []] at hret
      cases hret
    · intro h
      have hfree := h.resolve_left hmax
      obtain ⟨out, hout⟩ := regexSplitLoop_returns (input.length + 1) [] (Nat.lt_succ_self _) hfree
      refine ⟨out, ⟨input.length + 1, ?_⟩, IsSplit.of_loop hmax hout⟩
      intro fuel hle
      rw [hcall]
      exact regexSplitLoop_mono hout hle

theorem RegexSearch.ofRegex_some {rx : Regex UInt8} {s : Bytes} {ma : Regex.Match UInt8}
    (h : rx.search s = some ma) : ∃ cut, ofRegex rx s = some cut ∧ cut.before = ma.before ∧ cut.text = ma.text := by
  have hsome : ofRegex rx s = some ⟨ma.before, ma.text, ma.suffix, Regex.search_lossless h⟩ := by
    rw [ofRegex, Option.pmap_eq_some_iff]
    exact ⟨ma, Regex.search_lossless h, h, rfl⟩
  exact ⟨_, hsome, rfl, rfl⟩

/-- A split of `b` at `\s*` does not end: each search finds the empty text in front of the letter. -/
theorem not_splits_blank : ¬ Splits (RegexSearch.ofRegex Rx.blank) [98] 0 := by
  have hempty : ∃ ma, Rx.blank.search [98] = some ma ∧ ma.before = [] ∧ ma.text = [] :=
    ⟨⟨[], [], [98], []⟩, rfl, rfl, rfl⟩
  obtain ⟨ma, hma, hbefore, htext⟩ := hempty
  obtain ⟨cut, hcut, hb, ht⟩ := RegexSearch.ofRegex_some hma
  have hstall : Stalls (RegexSearch.ofRegex Rx.blank) [98] := ⟨cut, hcut, hb.trans hbefore, ht.trans htext⟩
  intro hsplits
  obtain ⟨res, ⟨turns, hres⟩, -⟩ := hsplits
  have hret := hres turns le_rfl
  rw [regexSplit, if_neg (by omega), regexSplitLoop_stalls hstall] at hret
  cases hret

end WsChat
