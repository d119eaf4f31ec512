import Mathlib.Data.List.Basic

/-! ECMAScript regular expressions with the backtracking order of `std::regex`: a
match gives the list of its successes, the preferred one first. -/
namespace Lib

inductive Regex (α : Type*) where
  | eps
  | bol
  | eol
  | cls (p : α → Bool)
  | seq (r s : Regex α)
  | alt (r s : Regex α)
  /-- Greedy repetition, at least `min` and at most `max` times. -/
  | rep (min : Nat) (max : Option Nat) (r : Regex α)
  /-- Capturing group number `n`. -/
  | group (n : Nat) (r : Regex α)

namespace Regex
variable {α : Type*}

/-- A matcher state: what was read (last element first), what is left, the captures. -/
structure Pos (α : Type*) where
  seen : List α
  rest : List α
  caps : List (Nat × List α) := []

def Pos.since (p q : Pos α) : List α := (q.seen.take (q.seen.length - p.seen.length)).reverse

/-- Greedy repetition of a matcher. An optional turn that reads nothing is given up. -/
def iterate (f : Pos α → List (Pos α)) : Nat → Nat → Option Nat → Pos α → List (Pos α)
  | 0, min, _, p => if min = 0 then [p] else []
  | fuel + 1, min, max, p =>
    if max = some 0 then [p]
    else
      let again := (f p).flatMap fun q =>
        if min = 0 ∧ q.rest.length = p.rest.length then []
        else iterate f fuel (min - 1) (max.map (· - 1)) q
      if min = 0 then again ++ [p] else again

def run : Regex α → Pos α → List (Pos α)
  | .eps, p => [p]
  | .bol, p => if p.seen.isEmpty then [p] else []
  | .eol, p => if p.rest.isEmpty then [p] else []
  | .cls c, p =>
    match p.rest with
    | [] => []
    | a :: rest => if c a then [{ p with seen := a :: p.seen, rest := rest }] else []
  | .seq r s, p => (run r p).flatMap (run s)
  | .alt r s, p => run r p ++ run s p
  | .rep min max r, p => iterate (run r) (min + p.rest.length + 1) min max p
  | .group n r, p => (run r p).map fun q => { q with caps := (n, p.since q) :: q.caps }

/-- The start and the end of the leftmost match at or after a position. -/
def searchFrom (r : Regex α) (seen : List α) : List α → Option (Pos α × Pos α)
  | [] => (run r ⟨seen, [], []⟩).head?.map fun q => (⟨seen, [], []⟩, q)
  | a :: rest =>
    match (run r ⟨seen, a :: rest, []⟩).head? with
    | some q => some (⟨seen, a :: rest, []⟩, q)
    | none => searchFrom r (a :: seen) rest

/-- `std::smatch` after a successful search. -/
structure Match (α : Type*) where
  before : List α
  text : List α
  suffix : List α
  groups : List (Nat × List α)

/-- `std::regex_search` on a whole subject. -/
def search (r : Regex α) (s : List α) : Option (Match α) :=
  (searchFrom r [] s).map fun (p, q) => ⟨p.seen.reverse, p.since q, q.rest, q.caps⟩

/-- `std::regex_match`: some way to match the whole subject. -/
def fullMatch (r : Regex α) (s : List α) : Bool := (run r ⟨[], s, []⟩).any (·.rest.isEmpty)

/-- `std::regex_replace` from a position on, for expressions that read something. -/
def replaceFrom (r : Regex α) (new : List α) : Nat → List α → List α → List α
  | 0, _, rest => rest
  | fuel + 1, seen, rest =>
    match searchFrom r seen rest with
    | none => rest
    | some (p, q) =>
      (Pos.since ⟨seen, rest, []⟩ p) ++ new ++
        (if q.rest.length < p.rest.length then replaceFrom r new fuel q.seen q.rest else q.rest)

def replace (r : Regex α) (new s : List α) : List α := replaceFrom r new (s.length + 1) [] s

variable [DecidableEq α]

def lit (a : α) : Regex α := .cls (· = a)

def word : List α → Regex α
  | [] => .eps
  | a :: w => .seq (lit a) (word w)

def oneOf : List (Regex α) → Regex α
  | [] => .cls fun _ => false
  | [r] => r
  | r :: rs => .alt r (oneOf rs)

def plus (r : Regex α) : Regex α := .rep 1 none r
def star (r : Regex α) : Regex α := .rep 0 none r
def opt (r : Regex α) : Regex α := .rep 0 (some 1) r

end Regex
end Lib
