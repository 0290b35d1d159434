import ExtensiveForm.Json.Basic
import ExtensiveForm.Decimal.Shortest

/-!
JSON text, on one line or indented by two blanks. A double has the fewest digits that read back and
one place after the point at least; from 10^16 on and below 10^-5 it has an exponent. A double that
is not finite has no text of its own and is written as null.
-/

set_option autoImplicit false

namespace ExtensiveForm.Json

def controlEscape (c : Char) : List Char :=
  let n := c.toNat
  ['\\', 'u', '0', '0', Nat.digitChar (n / 16), Nat.digitChar (n % 16)]

def escape (c : Char) : List Char :=
  if c = '"' then ['\\', '"']
  else if c = '\\' then ['\\', '\\']
  else if c = '\n' then ['\\', 'n']
  else if c = '\r' then ['\\', 'r']
  else if c = '\t' then ['\\', 't']
  else if c = '\x08' then ['\\', 'b']
  else if c = '\x0c' then ['\\', 'f']
  else if c < ' ' then controlEscape c
  else [c]

def stringText (s : String) : List Char := '"' :: (s.toList.flatMap escape ++ ['"'])

def naturalText (n : Nat) : List Char := Nat.toDigits 10 n

def integerText : Int → List Char
  | .ofNat n => naturalText n
  | .negSucc n => '-' :: naturalText (n + 1)

def pointAfter (digits : List Char) (places : Int) : List Char :=
  if places ≤ 0 then ['0', '.'] ++ List.replicate (-places).toNat '0' ++ digits
  else
    let n := places.toNat
    if digits.length ≤ n then digits ++ List.replicate (n - digits.length) '0' ++ ['.', '0']
    else digits.take n ++ '.' :: digits.drop n

def exponentForm (digits : List Char) (places : Int) : List Char :=
  let e := places - 1
  let mantissa :=
    match digits with
    | d :: [] => [d]
    | d :: rest => d :: '.' :: rest
    | [] => []
  mantissa ++ 'e' :: (if e < 0 then '-' else '+') :: naturalText e.natAbs

/-- The text of a decimal: positional from 10^-5 up to below 10^16. -/
def decimalText (d : Decimal.Scientific) : List Char :=
  let digits := Nat.toDigits 10 d.digits
  let places := d.exponent + digits.length
  if -5 < places ∧ places ≤ 16 then pointAfter digits places else exponentForm digits places

def floatText (x : Float) : List Char :=
  if x.isNaN || x.isInf then "null".toList
  else
    let b := Decimal.Binary.ofFloat x
    let magnitude := if b.mantissa = 0 then "0.0".toList else decimalText (Decimal.shortest b)
    if Decimal.isNegative x then '-' :: magnitude else magnitude

def Number.text : Number → List Char
  | .int n => integerText n
  | .float x => floatText x

def commaSeparated : List (List Char) → List Char
  | [] => []
  | t :: [] => t
  | t :: rest => t ++ ',' :: commaSeparated rest

mutual

def compact : Json → List Char
  | null => "null".toList
  | bool true => "true".toList
  | bool false => "false".toList
  | number n => n.text
  | string s => stringText s
  | array items => '[' :: (commaSeparated (compactItems items) ++ [']'])
  | object members => '\x7b' :: (commaSeparated (compactMembers members) ++ ['\x7d'])

def compactItems : List Json → List (List Char)
  | [] => []
  | a :: as => compact a :: compactItems as

def compactMembers : List (String × Json) → List (List Char)
  | [] => []
  | (k, a) :: as => (stringText k ++ ':' :: compact a) :: compactMembers as

end

def newLine (depth : Nat) : List Char := '\n' :: List.replicate (2 * depth) ' '

/-- A bracketed list, each item on a line of its own; nothing stands between the brackets of an
empty one. -/
def block (depth : Nat) (opening closing : Char) (items : List (List Char)) : List Char :=
  match items with
  | [] => [opening, closing]
  | _ :: _ =>
    opening :: (commaSeparated (items.map (newLine (depth + 1) ++ ·)) ++ newLine depth ++ [closing])

mutual

def pretty (depth : Nat) : Json → List Char
  | array items => block depth '[' ']' (prettyItems (depth + 1) items)
  | object members => block depth '\x7b' '\x7d' (prettyMembers (depth + 1) members)
  | null => "null".toList
  | bool true => "true".toList
  | bool false => "false".toList
  | number n => n.text
  | string s => stringText s

def prettyItems (depth : Nat) : List Json → List (List Char)
  | [] => []
  | a :: as => pretty depth a :: prettyItems depth as

def prettyMembers (depth : Nat) : List (String × Json) → List (List Char)
  | [] => []
  | (k, a) :: as => (stringText k ++ ':' :: ' ' :: pretty depth a) :: prettyMembers depth as

end

def compactText (j : Json) : String := String.ofList j.compact

def prettyText (j : Json) : String := String.ofList (j.pretty 0)

end ExtensiveForm.Json
