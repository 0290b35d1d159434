import ExtensiveForm.Text.Quoted

set_option autoImplicit false

namespace ExtensiveForm

/-- Numbers without fraction and exponent that fit into 64 bits are integers; all others are
doubles. -/
inductive Json.Number where
  | int (n : Int)
  | float (x : Float)

/-- Zero is equal to its negative, and no integer to a double. -/
def Json.Number.same : Number → Number → Bool
  | int m, int n => m == n
  | float x, float y => x == y
  | _, _ => false

instance : BEq Json.Number := ⟨Json.Number.same⟩

def Json.Number.hashCode : Number → UInt64
  | int n => mixHash 3 (hash n)
  | float x => mixHash 5 (if x == 0 then 0 else x.toBits)

instance : Hashable Json.Number := ⟨Json.Number.hashCode⟩

inductive Json where
  | null
  | bool (b : Bool)
  | number (n : Json.Number)
  | string (s : String)
  | array (items : List Json)
  | object (members : List (String × Json))

namespace Json

mutual

def same : Json → Json → Bool
  | null, null => true
  | bool a, bool b => a == b
  | number a, number b => a == b
  | string a, string b => a == b
  | array as, array bs => sameItems as bs
  | object as, object bs => sameMembers as bs
  | _, _ => false

def sameItems : List Json → List Json → Bool
  | [], [] => true
  | a :: as, b :: bs => same a b && sameItems as bs
  | _, _ => false

def sameMembers : List (String × Json) → List (String × Json) → Bool
  | [], [] => true
  | (k, a) :: as, (l, b) :: bs => k == l && same a b && sameMembers as bs
  | _, _ => false

end

instance : BEq Json := ⟨same⟩

mutual

def hashCode : Json → UInt64
  | null => 11
  | bool b => mixHash 13 (hash b)
  | number n => mixHash 17 (hash n)
  | string s => mixHash 19 (hash s)
  | array items => mixHash 23 (hashItems items)
  | object members => mixHash 29 (hashMembers members)

def hashItems : List Json → UInt64
  | [] => 31
  | a :: as => mixHash (hashCode a) (hashItems as)

def hashMembers : List (String × Json) → UInt64
  | [] => 37
  | (k, a) :: as => mixHash (mixHash (hash k) (hashCode a)) (hashMembers as)

end

instance : Hashable Json := ⟨hashCode⟩

def ofNat (n : Nat) : Json := number (.int n)

def ofFloat (x : Float) : Json := number (.float x)

def member? (j : Json) (key : String) : Option Json :=
  match j with
  | object members => (members.find? (·.1 == key)).map Prod.snd
  | _ => none

end Json

end ExtensiveForm
