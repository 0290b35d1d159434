set_option autoImplicit false

namespace ExtensiveForm.Text

def digit? (c : Char) : Option Nat := if c.isDigit then some (c.toNat - '0'.toNat) else none

def digitsFrom? : Nat → List Char → Option Nat
  | n, [] => some n
  | n, c :: rest =>
    match digit? c with
    | none => none
    | some d => digitsFrom? (10 * n + d) rest

def digits? : List Char → Option Nat
  | [] => none
  | cs => digitsFrom? 0 cs

def natural? : List Char → Option Nat
  | '+' :: cs => digits? cs
  | cs => digits? cs

def integer? : List Char → Option Int
  | '-' :: cs => (digits? cs).map fun n => -(n : Int)
  | cs => (natural? cs).map fun n => (n : Int)

def splitColon? : List Char → Option (List Char × List Char)
  | [] => none
  | ':' :: rest => some ([], rest)
  | c :: rest => (splitColon? rest).map fun (a, b) => (c :: a, b)

end ExtensiveForm.Text
