import WsChat.Lib.Regex
import WsChat.Lib.Bytes

/-! `regex_parser`, the command line cursor, and the expressions the code uses. -/
namespace WsChat
open Lib

def groupCount {α : Type*} : Regex α → Nat
  | .seq r s | .alt r s => groupCount r + groupCount s
  | .rep _ _ r => groupCount r
  | .group _ r => groupCount r + 1
  | _ => 0

/-- `_match` is kept as the texts of its groups and its suffix. A failed search leaves
it empty, and the buffer `_input` serves only to hold those texts. -/
structure RegexParser where
  iter : Int := -1
  nextInput : Bytes
  groups : List Bytes := []
  matchSuffix : Bytes := []

namespace RegexParser

def ofInput (input : Bytes) : RegexParser := { nextInput := input }

def valid (p : RegexParser) : Bool := 0 ≤ p.iter && p.iter < p.groups.length

/-- Exhausted input leaves everything, the last match included, as it was. -/
def next (p : RegexParser) (rx : Regex UInt8) : Bool × RegexParser :=
  if p.nextInput = [] then (false, p)
  else match rx.search p.nextInput with
    | some m => (true,
        { iter := 0
          nextInput := m.suffix
          groups := m.text ::
            (List.range (groupCount rx)).map fun i => (m.groups.lookup (i + 1)).getD []
          matchSuffix := m.suffix })
    | none => (false, { p with iter := -1, groups := [], matchSuffix := [] })

def suffix (p : RegexParser) : Bytes := p.matchSuffix

/-- The text of group `el`, when `read` assigns anything. -/
def read (p : RegexParser) (el : Int) : Option Bytes :=
  if 0 ≤ p.iter ∧ 0 ≤ el ∧ el < p.groups.length then p.groups[el.toNat]? else none

def shift (p : RegexParser) : Option Bytes × RegexParser :=
  if p.valid then
    let p := { p with iter := p.iter + 1 }
    (p.read p.iter, p)
  else (none, p)

end RegexParser

namespace Rx
open Regex

def space : Regex UInt8 := .cls isSpace
def notSpace : Regex UInt8 := .cls fun b => !isSpace b
def digit : Regex UInt8 := .cls isDigit
def isHex (b : UInt8) : Bool := isDigit b || (97 ≤ b && b ≤ 102) || (65 ≤ b && b ≤ 70)
def isLetter (b : UInt8) : Bool := (97 ≤ b && b ≤ 122) || (65 ≤ b && b ≤ 90)

/-- `\s*` -/
def blank : Regex UInt8 := star space

/-- `^/([^\s]+)` -/
def cmd : Regex UInt8 := .seq .bol (.seq (lit 47) (.group 1 (plus notSpace)))

/-- `^\s+` -/
def spaces : Regex UInt8 := .seq .bol (plus space)

/-- `^[^\s]+` -/
def toSpace : Regex UInt8 := .seq .bol (plus notSpace)

/-- `^\d+` -/
def int : Regex UInt8 := .seq .bol (plus digit)

/-- `^(\d{1,3}\.){3}\d{1,3}` -/
def ip : Regex UInt8 :=
  .seq .bol (.seq (.rep 3 (some 3) (.group 1 (.seq (.rep 1 (some 3) digit) (lit 46))))
    (.rep 1 (some 3) digit))

/-- `^#?([\da-fA-F]{6}|[\da-fA-F]{3})` -/
def color : Regex UInt8 :=
  .seq .bol (.seq (opt (lit 35))
    (.group 1 (.alt (.rep 6 (some 6) (.cls isHex)) (.rep 3 (some 3) (.cls isHex)))))

/-- `\s+$` -/
def endSpaces : Regex UInt8 := .seq (plus space) .eol

/-- `\s{2,}` -/
def longSpaces : Regex UInt8 := .rep 2 none space

/-- `\n{3,}` -/
def newlines : Regex UInt8 := .rep 3 none (lit 10)

/-- The letters of `REGEX_ANY_RUSSIAN`, each of them two bytes. -/
def russian : List String :=
  ["а", "б", "в", "г", "д", "е", "ё", "ж", "з", "и", "й", "к", "л", "м", "н", "о", "п", "р", "с",
   "т", "у", "ф", "х", "ц", "ч", "ш", "щ", "ъ", "ы", "ь", "э", "ю", "я",
   "А", "Б", "В", "Г", "Д", "Е", "Ё", "Ж", "З", "И", "Й", "К", "Л", "М", "Н", "О", "П", "Р", "С",
   "Т", "У", "Ф", "Х", "Ц", "Ч", "Ш", "Щ", "Ъ", "Ы", "Ь", "Э", "Ю", "Я"]

def anyRussian : Regex UInt8 := oneOf (russian.map fun s => word (utf8 s))

/-- `^([a-zA-Z0-9\-_\. ]|REGEX_ANY_RUSSIAN){1,24}$`; its captures are never read. -/
def login : Regex UInt8 :=
  .seq .bol (.seq (.rep 1 (some 24)
    (.alt (.cls fun b => isLetter b || isDigit b || b == 45 || b == 95 || b == 46 || b == 32)
      anyRussian)) .eol)

/-- `#[a-zA-Z\d\-_ \[\]\(\)]{3,24}` -/
def roomName : Regex UInt8 :=
  .seq (lit 35) (.rep 3 (some 24) (.cls fun b => isLetter b || isDigit b || b == 45 || b == 95 ||
    b == 32 || b == 91 || b == 93 || b == 40 || b == 41))

end Rx
end WsChat
