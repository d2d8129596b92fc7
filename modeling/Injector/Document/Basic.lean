import Injector.Number.Double

/-!
# Documents

The value that a structured text stands for, as a program builds it to be written.
-/

namespace Injector

/-- A value to be written. -/
inductive Document
  | null
  | bool (b : Bool)
  | integer (n : Int)
  | float (x : Double)
  | text (s : String)
  | list (items : List Document)
  | object (members : List (String × Document))
  /-- A value marked with the choice it belongs to. -/
  | tagged (tag : String) (value : Document)
deriving Repr, Inhabited

namespace Document

/-- The text, or no value. -/
def ofText? : Option String → Document
  | none => null
  | some s => text s

def ofTexts (l : List String) : Document := list (l.map text)

def ofNat (n : Nat) : Document := integer n

end Document

end Injector
