/-!
# Identifiers and scopes

An identifier is the path of a type, its segments parted by `::`. Identifiers are compared and
listed by code points.
-/

namespace Injector

abbrev Identifier := String

def pathSeparator : String := "::"

/-- How long an instance lives. -/
inductive Scope
  /-- Built once and kept. -/
  | singleton
  /-- Built anew each time. -/
  | prototype
deriving DecidableEq, Repr, Inhabited

def Scope.name : Scope → String
  | .singleton => "singleton"
  | .prototype => "prototype"

def Scope.isSingleton : Scope → Bool
  | .singleton => true
  | .prototype => false

/-! ### Paths as characters -/

def afterChars? : (text : List Char) → List Char → Option (List Char)
  | [], cs => some cs
  | t :: ts, c :: cs => if t = c then afterChars? ts cs else none
  | _ :: _, [] => none

def afterSeparator? : List Char → Option (List Char)
  | ':' :: ':' :: rest => some rest
  | _ => none

/-- How many characters stand before the first separator, or all of them. -/
def separatorIndex : List Char → Nat
  | [] => 0
  | c :: cs => if (afterSeparator? (c :: cs)).isSome then 0 else separatorIndex cs + 1

def hasSeparator : List Char → Bool
  | [] => false
  | c :: cs => (afterSeparator? (c :: cs)).isSome || hasSeparator cs

end Injector
