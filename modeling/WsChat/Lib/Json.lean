import WsChat.Lib.Bytes
import Mathlib.Data.Rat.Floor

/-! JSON values with the typed accessors of `Json::Value`: a conversion that does
not apply throws, a missing member reads as null. -/
namespace Lib

inductive Json where
  | null
  | bool (b : Bool)
  | int (n : Int)
  /-- A number with a fraction or an exponent, and the text it is printed as. -/
  | real (q : Rat) (text : Bytes)
  | str (s : Bytes)
  | arr (items : List Json)
  | obj (members : List (Bytes × Json))

namespace Json

/-- `Json::LogicError`, an exception derived from `std::exception`. -/
inductive Error where
  | logic

/-- `value[key]` on a constant value. -/
def get (key : Bytes) : Json → Except Error Json
  | null => .ok null
  | obj members => .ok ((members.lookup key).getD null)
  | _ => .error .logic

def isMember (key : Bytes) : Json → Except Error Bool
  | null => .ok false
  | obj members => .ok (members.lookup key).isSome
  | _ => .error .logic

/-- The elements a range-for over the value visits; scalars have none. -/
def items : Json → List Json
  | arr l => l
  | obj members => members.map Prod.snd
  | _ => []

/-- Whole number between two bounds, a real one being cut towards zero. -/
def asInteger (lo hi : Int) : Json → Except Error Int
  | null => .ok 0
  | bool b => .ok (if b then 1 else 0)
  | int n => if lo ≤ n ∧ n ≤ hi then .ok n else .error .logic
  | real q _ => if lo ≤ q ∧ q ≤ hi then .ok (if 0 ≤ q then ⌊q⌋ else ⌈q⌉) else .error .logic
  | _ => .error .logic

def asInt (j : Json) : Except Error Int := j.asInteger (-2 ^ 31) (2 ^ 31 - 1)

def asUInt (j : Json) : Except Error UInt32 :=
  (j.asInteger 0 (2 ^ 32 - 1)).map fun n => UInt32.ofNat n.toNat

def asUInt64 (j : Json) : Except Error Nat :=
  (j.asInteger 0 (2 ^ 64 - 1)).map Int.toNat

def asBool : Json → Except Error Bool
  | null => .ok false
  | bool b => .ok b
  | int n => .ok (n != 0)
  | real q _ => .ok (q != 0)
  | _ => .error .logic

def asString : Json → Except Error Bytes
  | null => .ok []
  | bool b => .ok (utf8 (if b then "true" else "false"))
  | int n => .ok (decimal n)
  | real _ text => .ok text
  | str s => .ok s
  | _ => .error .logic

def uint (n : UInt32) : Json := .int n.toNat

@[simp] theorem get_obj (key : Bytes) (members : List (Bytes × Json)) :
    get key (obj members) = .ok ((members.lookup key).getD null) := rfl

@[simp] theorem get_null (key : Bytes) : get key null = .ok null := rfl

theorem get_cons_self (key : Bytes) (v : Json) (l : List (Bytes × Json)) :
    get key (obj ((key, v) :: l)) = .ok v := by
  rw [get_obj, List.lookup_cons_self, Option.getD_some]

theorem get_cons_ne {key k : Bytes} (h : (key == k) = false) (v : Json) (l : List (Bytes × Json)) :
    get key (obj ((k, v) :: l)) = get key (obj l) := by
  rw [get_obj, get_obj, List.lookup_cons, h]

@[simp] theorem items_arr (l : List Json) : items (arr l) = l := rfl

@[simp] theorem items_null : items null = [] := rfl

@[simp] theorem asString_str (s : Bytes) : asString (str s) = .ok s := rfl

@[simp] theorem asBool_bool (b : Bool) : asBool (bool b) = .ok b := rfl

theorem mapM_map_ok {α β ε : Type} {f : α → β} {g : β → Except ε α} (h : ∀ a, g (f a) = .ok a)
    (l : List α) : (l.map f).mapM g = .ok l := by
  induction l with
  | nil => rfl
  | cons a l ih =>
    rw [List.map_cons, List.mapM_cons, h, ih]
    rfl

@[simp] theorem asUInt_uint (n : UInt32) : asUInt (uint n) = .ok n := by
  have h : n.toNat ≤ 4294967295 := by
    have := n.toNat_lt
    omega
  simp [asUInt, uint, asInteger, h, Except.map]

end Json
end Lib
