import Injector.Number.Text
import Injector.Text.Quoted

/-!
# Literal values

The values that configuration and metadata may bind to a parameter or a field, and the
expressions they become in generated code.
-/

namespace Injector

/-- A literal value. -/
inductive Literal
  | null
  | bool (b : Bool)
  /-- A whole number of 64 bits. -/
  | integer (n : Int64)
  | float (x : Double)
  | text (s : String)
  | list (items : List Literal)
deriving Repr, Inhabited

namespace Literal

mutual

def decEq : (a b : Literal) → Decidable (a = b)
  | .null, .null => isTrue rfl
  | .bool a, .bool b => decidable_of_iff (a = b) (by simp)
  | .integer a, .integer b => decidable_of_iff (a = b) (by simp)
  | .float a, .float b => decidable_of_iff (a = b) (by simp)
  | .text a, .text b => decidable_of_iff (a = b) (by simp)
  | .list as, .list bs =>
    match decEqList as bs with
    | isTrue h => isTrue (by rw [h])
    | isFalse h => isFalse (by simpa using h)
  | .null, .bool _ | .null, .integer _ | .null, .float _ | .null, .text _ | .null, .list _
  | .bool _, .null | .bool _, .integer _ | .bool _, .float _ | .bool _, .text _
  | .bool _, .list _ | .integer _, .null | .integer _, .bool _ | .integer _, .float _
  | .integer _, .text _ | .integer _, .list _ | .float _, .null | .float _, .bool _
  | .float _, .integer _ | .float _, .text _ | .float _, .list _ | .text _, .null
  | .text _, .bool _ | .text _, .integer _ | .text _, .float _ | .text _, .list _
  | .list _, .null | .list _, .bool _ | .list _, .integer _ | .list _, .float _
  | .list _, .text _ => isFalse (by simp)

def decEqList : (as bs : List Literal) → Decidable (as = bs)
  | [], [] => isTrue rfl
  | [], _ :: _ => isFalse (by simp)
  | _ :: _, [] => isFalse (by simp)
  | a :: as, b :: bs =>
    match decEq a b, decEqList as bs with
    | isTrue h, isTrue hs => isTrue (by rw [h, hs])
    | isFalse h, _ => isFalse (by simp [h])
    | _, isFalse hs => isFalse (by simp [hs])

end

instance : DecidableEq Literal := decEq

/-! ### Expressions -/

/-- The expression of a floating-point number; those that are not finite have names. -/
def floatExpression (x : Double) : String :=
  match x.magnitude with
  | .nan => "f64::NAN"
  | .infinite => if x.isNegative then "f64::NEG_INFINITY" else "f64::INFINITY"
  | .finite m q => x.signText ++ Double.positional m q

mutual

def expression : Literal → String
  | .null => "None"
  | .bool b => if b then "true" else "false"
  | .integer n => toString n.toInt
  | .float x => floatExpression x
  | .text s => quoted s
  | .list items => "vec![" ++ ", ".intercalate (expressions items) ++ "]"

def expressions : List Literal → List String
  | [] => []
  | a :: as => expression a :: expressions as

end

end Literal

end Injector
