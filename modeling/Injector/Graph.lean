import Injector.Definition

/-!
# Graphs of definitions

A graph holds at most one definition for each identifier, and the entry points it was built for in
declared order. A definition is never replaced by another one; what changes are the parts of a
definition that are filled in later.
-/

namespace Injector

/-- Definitions by identifier, with the declared entry points. -/
structure Graph where
  definitions : Table Definition := .empty
  /-- The entry points, in declared order. -/
  entryPoints : List Identifier := []
deriving Repr

namespace Graph

/-! ### Looking up -/

def find? (g : Graph) (id : Identifier) : Option Definition := g.definitions.find? id

def contains (g : Graph) (id : Identifier) : Bool := g.definitions.contains id

def size (g : Graph) : Nat := g.definitions.size

/-- The identifiers that have a definition, in ascending order. -/
def identifiers (g : Graph) : List Identifier := g.definitions.keys

/-- The identifiers in the order they are written: the declared entry points, then all others in
ascending order. -/
def emissionIds (g : Graph) : List Identifier :=
  g.entryPoints.filter g.contains ++ g.identifiers.filter (· ∉ g.entryPoints)

def emissionOrder (g : Graph) : List Definition := g.emissionIds.filterMap g.find?

/-! ### Caching -/

/-- Whether an instance is kept for the next time: that of a singleton class which is exposed or
has a singleton among its consumers. -/
def keepsInstance : Definition → Bool
  | .cls c => c.scope.isSingleton && (c.entryPoint || c.referrers.values.any (·.singleton))
  | .autoloaded inner .. => keepsInstance inner
  | _ => false

def isCached (g : Graph) (id : Identifier) : Bool := (g.find? id).any keepsInstance

/-! ### Building up -/

/-- Add a definition, unless its identifier already has one. -/
def insertIfAbsent (g : Graph) (d : Definition) : Graph :=
  if g.contains d.id then g else { g with definitions := g.definitions.insert d.id d }

/-- Add the definitions of some identifiers, and say which of them were new. -/
def insertAll (g : Graph) : List (Identifier × Definition) → Graph × List Identifier
  | [] => (g, [])
  | (id, d) :: rest =>
    if g.contains d.id then g.insertAll rest
    else
      let (g, new) := (g.insertIfAbsent d).insertAll rest
      (g, id :: new)

/-- Add an entry point, unless it is there already. -/
def declare (g : Graph) (id : Identifier) : Graph :=
  if id ∈ g.entryPoints then g else { g with entryPoints := g.entryPoints ++ [id] }

/-- Change the definition of an identifier, if it has one. -/
def adjust (g : Graph) (id : Identifier) (f : Definition → Definition) : Graph :=
  { g with definitions := g.definitions.adjust id f }

def addReferrer (g : Graph) (consumer : Identifier) (singleton : Bool) (id : Identifier) : Graph :=
  g.adjust id (·.addReferrer consumer singleton)

/-- A class or an alias, put behind the activation of its sources. -/
def wrapped (always : List String) : Definition → Definition
  | .cls c => .autoloaded (.cls c) c.fileBased always
  | .alias a => .autoloaded (.alias a) a.fileBased always
  | d => d

/-- Put the definition of an identifier behind the activation of its sources. -/
def wrap (g : Graph) (always : List String) (id : Identifier) : Graph :=
  g.adjust id (wrapped always)

/-! ### What the operations do to look-ups -/

theorem length_identifiers (g : Graph) : g.identifiers.length = g.size := List.length_map _

@[simp] theorem find?_adjust (g : Graph) (id id' : Identifier) (f : Definition → Definition) :
    (g.adjust id' f).find? id = if id = id' then (g.find? id).map f else g.find? id :=
  Table.find?_adjust ..

theorem find?_insertIfAbsent (g : Graph) (d : Definition) (id : Identifier) :
    (g.insertIfAbsent d).find? id =
      if id = d.id then some ((g.find? id).getD d) else g.find? id := by
  unfold insertIfAbsent contains Table.contains
  split <;> rename_i hd
  · obtain ⟨d', hd⟩ := Option.isSome_iff_exists.1 hd
    by_cases h : id = d.id
    · simp [h, find?, hd]
    · simp [h]
  · have hd : g.definitions.find? d.id = none := by simpa using hd
    by_cases h : id = d.id <;> simp [find?, h, hd]

@[simp] theorem contains_eq (g : Graph) (id : Identifier) : g.contains id = (g.find? id).isSome :=
  rfl

@[simp] theorem find?_declare (g : Graph) (id id' : Identifier) :
    (g.declare id').find? id = g.find? id := by
  simp only [declare]
  split <;> rfl

end Graph

end Injector
