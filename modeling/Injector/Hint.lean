import Injector.Config
import Injector.Pattern

/-!
# Hints

A hint says how an identifier is built when it is asked for, in place of its own constructor. Some
hints are for one identifier; the others are for all identifiers that match a pattern, and are
tried in the order they were given when there is none for the very identifier.
-/

namespace Injector

/-- A hint for one identifier. -/
inductive Binding
  /-- It is built by a class, which may be the identifier itself. -/
  | byClass (cls : Identifier) (settings : ClassSettings)
  | perConsumer (table : ContextTable)
deriving DecidableEq, Repr

/-- A hint for the identifiers of a pattern. -/
structure WildcardHint where
  source : Pattern
  target : Pattern
  scope : Scope
  /-- Every capture has its place in the class. -/
  arity : source.placeholders = target.placeholders
deriving DecidableEq, Repr

namespace WildcardHint

/-- The hint of two written patterns, which must have as many placeholders each. -/
def ofPatterns (source target : String) (scope : Scope) : Except Error WildcardHint := do
  let s ← Pattern.parse source
  let t ← Pattern.parse target
  if h : s.placeholders = t.placeholders then return ⟨s, t, scope, h⟩
  else throw (.config (.placeholderMismatch source target s.placeholders t.placeholders))

/-- The class that builds an identifier, if the hint is for it. -/
def targetFor? (w : WildcardHint) (id : Identifier) : Option Identifier :=
  (w.source.captures id).bind w.target.substitute

end WildcardHint

/-- A hint of either kind. -/
inductive Hint
  | exact (binding : Binding)
  | wildcard (hint : WildcardHint)
deriving DecidableEq, Repr

/-- The hints of a compilation. -/
structure HintTable where
  exact : Table Binding := .empty
  /-- The hints for patterns, in the order they are tried. -/
  wildcards : List WildcardHint := []
deriving DecidableEq, Repr

/-- The binding that a configured hint for `id` is. -/
def HintConfig.binding (id : Identifier) : HintConfig → Binding
  | .context table => .perConsumer table
  | .implementation cls settings => .byClass cls settings
  | .own settings => .byClass id settings

def WildcardConfig.hint (w : WildcardConfig) : Except Error WildcardHint :=
  WildcardHint.ofPatterns w.source w.target w.scope

namespace HintTable

def ofConfig (c : Config) : Except Error HintTable := do
  return ⟨c.hints.mapValues HintConfig.binding, ← c.wildcards.mapM WildcardConfig.hint⟩

/-- The hint for an identifier: its own, or else the first pattern that matches it. -/
def find? (t : HintTable) (id : Identifier) : Option Hint :=
  match t.exact.find? id with
  | some binding => some (.exact binding)
  | none => (t.wildcards.find? fun w => w.source.isMatch id).map .wildcard

def size (t : HintTable) : Nat := t.exact.size + t.wildcards.length

def insert (t : HintTable) (id : Identifier) (binding : Binding) : HintTable :=
  { t with exact := t.exact.insert id binding }

/-- Add a hint for a pattern, to be tried after the others. -/
def push (t : HintTable) (w : WildcardHint) : HintTable :=
  { t with wildcards := t.wildcards ++ [w] }

end HintTable

end Injector
