import WsChat.Lib.Bytes
import Mathlib.Data.List.AList

/-! A Redis server as far as GET, SET without options and SETEX go. Times are in milliseconds,
and a key is gone at the moment its time runs out. -/
namespace Lib.Redis

structure Entry where
  value : Bytes
  expires : Option Int := none

def Entry.live (e : Entry) (now : Int) : Bool :=
  match e.expires with
  | none => true
  | some t => now < t

abbrev Store := AList (fun _ : Bytes => Entry)

inductive Verb where
  | get | set | setex
  deriving DecidableEq, Repr

inductive Reply where
  | null
  | ok
  | bulk (value : Bytes)
  | error
  deriving DecidableEq

/-- What a key holds at a time. -/
def Store.value (st : Store) (now : Int) (key : Bytes) : Option Bytes :=
  ((st.lookup key).filter (·.live now)).map Entry.value

def seconds (s : Bytes) : Option Nat :=
  if s ≠ [] ∧ s.all isDigit ∧ 0 < digitsValue s then some (digitsValue s) else none

/-- A command with a wrong number of arguments fails and stores nothing. -/
def command (st : Store) (now : Int) : Verb → List Bytes → Reply × Store
  | .get, [key] =>
    match st.value now key with
    | some v => (.bulk v, st)
    | none => (.null, st)
  | .set, [key, value] => (.ok, st.insert key { value })
  | .setex, [key, secs, value] =>
    match seconds secs with
    | some n => (.ok, st.insert key { value, expires := some (now + 1000 * n) })
    | none => (.error, st)
  | _, _ => (.error, st)

end Lib.Redis
