import ExtensiveForm.Text.Unprintable

set_option autoImplicit false

namespace ExtensiveForm.Text

def hexadecimal (n : Nat) : List Char := Nat.toDigits 16 n

def escape (c : Char) : List Char :=
  if c = '"' then ['\\', '"']
  else if c = '\\' then ['\\', '\\']
  else if c = '\n' then ['\\', 'n']
  else if c = '\r' then ['\\', 'r']
  else if c = '\t' then ['\\', 't']
  else if c = '\x00' then ['\\', '0']
  else if ' ' ≤ c ∧ c ≤ '~' then [c]
  else if isUnprintable c then ['\\', 'u', '\x7b'] ++ hexadecimal c.toNat ++ ['\x7d']
  else [c]

def quoted (s : String) : String :=
  String.ofList (['"'] ++ s.toList.flatMap escape ++ ['"'])

class Named (α : Type) where
  name : α → String

instance : Named String := ⟨quoted⟩

instance : Named Int64 := ⟨fun n => toString n.toInt⟩

def listed {α : Type} [Named α] (xs : List α) : String :=
  "[" ++ String.intercalate ", " (xs.map Named.name) ++ "]"

end ExtensiveForm.Text
