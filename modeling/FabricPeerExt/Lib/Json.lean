/-
FabricPeerExt.Lib.Json — JSON values and texts, as `encoding/json` of Go has them.

`Json ν` has numbers of type `ν`: literals, or what a program makes of them. The members of an
object are listed as written; `norm` is the value as a map has it.
-/
import FabricPeerExt.Lib.Utf8
import FabricPeerExt.Lib.Decimal
import FabricPeerExt.Lib.OrderedMap
import Mathlib.Data.Char

namespace FabricPeerExt.Lib

inductive Json (ν : Type) where
  | null
  | bool (b : Bool)
  | number (n : ν)
  | string (s : Text)
  | array (items : List (Json ν))
  | object (members : List (Text × Json ν))

namespace Json

section
variable {ν μ : Type}

/-! ## Numbers -/

mutual

def subst (f : ν → Json μ) : Json ν → Json μ
  | null => null
  | bool b => bool b
  | number n => f n
  | string s => string s
  | array items => array (substItems f items)
  | object members => object (substMembers f members)

def substItems (f : ν → Json μ) : List (Json ν) → List (Json μ)
  | [] => []
  | j :: items => subst f j :: substItems f items

def substMembers (f : ν → Json μ) : List (Text × Json ν) → List (Text × Json μ)
  | [] => []
  | (k, j) :: members => (k, subst f j) :: substMembers f members

end

def map (f : ν → μ) (j : Json ν) : Json μ := j.subst fun n => number (f n)

mutual

def numbers : Json ν → List ν
  | null => []
  | bool _ => []
  | number n => [n]
  | string _ => []
  | array items => numbersItems items
  | object members => numbersMembers members

def numbersItems : List (Json ν) → List ν
  | [] => []
  | j :: items => numbers j ++ numbersItems items

def numbersMembers : List (Text × Json ν) → List ν
  | [] => []
  | (_, j) :: members => numbers j ++ numbersMembers members

end

/-! ## Values as maps -/

mutual

def norm : Json ν → Json ν
  | null => null
  | bool b => bool b
  | number n => number n
  | string s => string s
  | array items => array (normItems items)
  | object members => object (OrderedMap.ofList (normMembers members))

def normItems : List (Json ν) → List (Json ν)
  | [] => []
  | j :: items => norm j :: normItems items

def normMembers : List (Text × Json ν) → List (Text × Json ν)
  | [] => []
  | (k, j) :: members => (k, norm j) :: normMembers members

end

def toMap (members : List (Text × Json ν)) : OrderedMap Text (Json ν) :=
  OrderedMap.ofList (normMembers members)

/-! ## Kinds of values -/

def asString : Json ν → Option Text
  | string s => some s
  | _ => none

def asBool : Json ν → Option Bool
  | bool b => some b
  | _ => none

def asNumber : Json ν → Option ν
  | number n => some n
  | _ => none

end

/-! ## Writing -/

def escapeUnicode (n : Nat) : Bytes :=
  [92, 117, hexDigit (n / 4096), hexDigit (n / 256 % 16), hexDigit (n / 16 % 16),
    hexDigit (n % 16)]

def escapeChar (c : Char) : Bytes :=
  if c = '"' then [92, 34]
  else if c = '\\' then [92, 92]
  else if c = '\n' then [92, 110]
  else if c = '\r' then [92, 114]
  else if c = '\t' then [92, 116]
  else if c.toNat < 32 ∨ c = '<' ∨ c = '>' ∨ c = '&' ∨ c.toNat = 0x2028 ∨ c.toNat = 0x2029 then
    escapeUnicode c.toNat
  else String.utf8EncodeChar c

def renderString (s : Text) : Bytes := 34 :: (s.flatMap escapeChar ++ [34])

mutual

def render : Json Number → Bytes
  | null => [110, 117, 108, 108]
  | bool true => [116, 114, 117, 101]
  | bool false => [102, 97, 108, 115, 101]
  | number n => n.render
  | string s => renderString s
  | array [] => [91, 93]
  | array (j :: items) => 91 :: (render j ++ renderItems items)
  | object [] => [123, 125]
  | object ((k, j) :: members) =>
    123 :: (renderString k ++ 58 :: (render j ++ renderMembers members))

def renderItems : List (Json Number) → Bytes
  | [] => [93]
  | j :: items => 44 :: (render j ++ renderItems items)

def renderMembers : List (Text × Json Number) → Bytes
  | [] => [125]
  | (k, j) :: members => 44 :: (renderString k ++ 58 :: (render j ++ renderMembers members))

end

/-! ## Reading -/

def skipSpace (s : Bytes) : Bytes := s.dropWhile fun b => b = 32 ∨ b = 9 ∨ b = 13 ∨ b = 10

def expect (word s : Bytes) : Option Bytes :=
  if word <+: s then some (s.drop word.length) else none

def unescape (b : UInt8) : Option Char :=
  if b = 34 then some '"'
  else if b = 92 then some '\\'
  else if b = 47 then some '/'
  else if b = 98 then some (Char.ofNat 8)
  else if b = 102 then some (Char.ofNat 12)
  else if b = 110 then some '\n'
  else if b = 114 then some '\r'
  else if b = 116 then some '\t'
  else none

def parseHex4 : Bytes → Option (Nat × Bytes)
  | a :: b :: c :: d :: s =>
    match fromHexChar a, fromHexChar b, fromHexChar c, fromHexChar d with
    | some a, some b, some c, some d => some (4096 * a + 256 * b + 16 * c + d, s)
    | _, _, _, _ => none
  | _ => none

def parseLowSurrogate : Bytes → Option (Nat × Bytes)
  | 92 :: 117 :: s => (parseHex4 s).filter fun p => 0xDC00 ≤ p.1 ∧ p.1 < 0xE000
  | _ => none

def parseUnicode (s : Bytes) : Option (Char × Bytes) :=
  match parseHex4 s with
  | none => none
  | some (u, r) =>
    if 0xD800 ≤ u ∧ u < 0xE000 then
      match (parseLowSurrogate r).filter fun _ => u < 0xDC00 with
      | some (l, r') => some (Char.ofNat (0x10000 + (u - 0xD800) * 0x400 + (l - 0xDC00)), r')
      | none => some (replacementChar, r)
    else some (Char.ofNat u, r)

def parseEscape : Bytes → Option (Char × Bytes)
  | [] => none
  | b :: s =>
    match unescape b with
    | some c => some (c, s)
    | none => if b = 117 then parseUnicode s else none

def parseString : Nat → Bytes → Option (Text × Bytes)
  | 0, _ => none
  | _ + 1, [] => none
  | fuel + 1, b :: s =>
    if b = 34 then some ([], s)
    else if b = 92 then
      match parseEscape s with
      | none => none
      | some (c, r) => (parseString fuel r).map fun p => (c :: p.1, p.2)
    else if b < 32 then none
    else
      match decodeRune (b :: s) with
      | some (c, r) => (parseString fuel r).map fun p => (c :: p.1, p.2)
      | none => (parseString fuel s).map fun p => (replacementChar :: p.1, p.2)

def parseName (s : Bytes) : Option (Text × Bytes) :=
  match skipSpace s with
  | [] => none
  | b :: s =>
    if b = 34 then
      match parseString s.length s with
      | none => none
      | some (k, r) => (expect [58] (skipSpace r)).map fun r => (k, r)
    else none

mutual

def parseValue : Nat → Bytes → Option (Json Number × Bytes)
  | 0, _ => none
  | fuel + 1, s =>
    match skipSpace s with
    | [] => none
    | b :: s =>
      if b = 34 then (parseString s.length s).map fun p => (string p.1, p.2)
      else if b = 91 then
        match expect [93] (skipSpace s) with
        | some r => some (array [], r)
        | none =>
          match parseValue fuel s with
          | none => none
          | some (j, r) => (parseItems fuel r).map fun p => (array (j :: p.1), p.2)
      else if b = 123 then
        match expect [125] (skipSpace s) with
        | some r => some (object [], r)
        | none =>
          match parseName s with
          | none => none
          | some (k, r) =>
            match parseValue fuel r with
            | none => none
            | some (j, r) => (parseMembers fuel r).map fun p => (object ((k, j) :: p.1), p.2)
      else if b = 110 then (expect [117, 108, 108] s).map fun r => (null, r)
      else if b = 116 then (expect [114, 117, 101] s).map fun r => (bool true, r)
      else if b = 102 then (expect [97, 108, 115, 101] s).map fun r => (bool false, r)
      else (parseNumber (b :: s)).map fun p => (number p.1, p.2)

def parseItems : Nat → Bytes → Option (List (Json Number) × Bytes)
  | 0, _ => none
  | fuel + 1, s =>
    match skipSpace s with
    | [] => none
    | b :: s =>
      if b = 93 then some ([], s)
      else if b = 44 then
        match parseValue fuel s with
        | none => none
        | some (j, r) => (parseItems fuel r).map fun p => (j :: p.1, p.2)
      else none

def parseMembers : Nat → Bytes → Option (List (Text × Json Number) × Bytes)
  | 0, _ => none
  | fuel + 1, s =>
    match skipSpace s with
    | [] => none
    | b :: s =>
      if b = 125 then some ([], s)
      else if b = 44 then
        match parseName s with
        | none => none
        | some (k, r) =>
          match parseValue fuel r with
          | none => none
          | some (j, r) => (parseMembers fuel r).map fun p => ((k, j) :: p.1, p.2)
      else none

end

def parseFirst (s : Bytes) : Option (Json Number × Bytes) := parseValue (s.length + 1) s

def parse (s : Bytes) : Option (Json Number) :=
  ((parseFirst s).filter fun p => skipSpace p.2 = []).map Prod.fst

end Json

end FabricPeerExt.Lib
