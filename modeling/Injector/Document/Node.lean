import Injector.Document.Basic
import Injector.Table

/-!
# Nodes and their decoding

What a reader of structured text finds, before it is known what each part is needed for. An atom
has a kind of its own, and separately what it is for each purpose: where a text is required, where
a truth value is, where a value may be missing, and so on. In one format these follow from its
kind; in the other a plain `5` is also the text `5`.

Each `?` function below decodes a node for one purpose and refuses it with `none`. A section, a
value with named members, may be written as an object, as an empty text, and in some places as the
list of its members in order. A choice between alternatives is not told apart by a mark, so it is
decoded from a *settled* node, in which every atom is what its own kind says.
-/

namespace Injector

/-- The kinds of an atom. -/
inductive Scalar
  | null
  | bool (b : Bool)
  | integer (n : Int)
  | float (x : Double)
  | text (s : String)
  /-- Well-formed, but without a value of its own, such as a number out of range. -/
  | unreadable
deriving DecidableEq, Repr

/-- A part of a document that has no parts. -/
structure Atom where
  scalar : Scalar
  text : Option String
  truth : Option Bool
  word : Option String
  place : Option Nat
  /-- Whether it is a value where one may be missing. -/
  isGiven : Option Bool
  /-- Whether nothing at all was written. -/
  isBlank : Bool
deriving DecidableEq, Repr

/-- What a reader finds. -/
inductive Node
  | atom (a : Atom)
  /-- A list. If it is `positional`, it may also stand for the members of a section. -/
  | list (positional : Bool) (items : List Node)
  /-- Members in the order written; a key may occur twice. -/
  | object (members : List (Node × Node))
  /-- A list or an object with a mark. Where one is required the mark does not matter. -/
  | marked (n : Node)
deriving Repr

/-! ### Atoms -/

def Scalar.atom (s : Scalar) : Atom where
  scalar := s
  text := match s with
    | .text t => some t
    | _ => none
  truth := match s with
    | .bool b => some b
    | _ => none
  word := match s with
    | .text t => some t
    | _ => none
  place := none
  isGiven := some (s ≠ .null)
  isBlank := false

/-- The atom that is what its kind says and keeps its place in an order; an unreadable one is
refused. -/
def Atom.settle (a : Atom) : Option Atom :=
  match a.scalar with
  | .unreadable => none
  | s => some { s.atom with place := a.place }

def Scalar.node (s : Scalar) : Node := .atom s.atom

def Node.ofText (s : String) : Node := (Scalar.text s).node

/-! ### Depth -/

mutual

/-- The node of which only so many levels are readable. -/
def Node.limited (room : Nat) : Node → Node
  | .atom a => .atom a
  | .list positional items =>
    if room = 0 then Scalar.unreadable.node else .list positional (limitedItems (room - 1) items)
  | .object members =>
    if room = 0 then Scalar.unreadable.node else .object (limitedMembers (room - 1) members)
  | .marked n => .marked (n.limited room)

/-- The items of a list of which only so many levels are readable. -/
def limitedItems (room : Nat) : List Node → List Node
  | [] => []
  | n :: ns => n.limited room :: limitedItems room ns

/-- The members of an object of which only so many levels are readable. -/
def limitedMembers (room : Nat) : List (Node × Node) → List (Node × Node)
  | [] => []
  | (k, n) :: ms => (k.limited room, n.limited room) :: limitedMembers room ms

end

/-! ### Settled nodes -/

mutual

/-- The node in which every atom is what its own kind says. Nothing in it has a mark. -/
def Node.settle : Node → Option Node
  | .atom a => a.settle.map .atom
  | .list _ items => (settleItems items).map (.list true)
  | .object members => (settleMembers members).map .object
  | .marked _ => none

def settleItems : List Node → Option (List Node)
  | [] => some []
  | n :: ns => do
    let n ← n.settle
    let ns ← settleItems ns
    return n :: ns

def settleMembers : List (Node × Node) → Option (List (Node × Node))
  | [] => some []
  | (k, n) :: ms => do
    let k ← k.settle
    let n ← n.settle
    let ms ← settleMembers ms
    return (k, n) :: ms

end

mutual

/-- The settled node of a written value: a mark is the only member of an object, and a number that
is not finite is no value. -/
def Document.toNode : Document → Node
  | .null => Scalar.null.node
  | .bool b => (Scalar.bool b).node
  | .integer n => (Scalar.integer n).node
  | .float x => if x.isFinite then (Scalar.float x).node else Scalar.null.node
  | .text s => .ofText s
  | .list items => .list true (toNodes items)
  | .object members => .object (toMembers members)
  | .tagged tag value => .object [(.ofText tag, value.toNode)]

def toNodes : List Document → List Node
  | [] => []
  | d :: ds => d.toNode :: toNodes ds

def toMembers : List (String × Document) → List (Node × Node)
  | [] => []
  | (k, d) :: ms => (.ofText k, d.toNode) :: toMembers ms

end

namespace Node

/-! ### Atoms for a purpose -/

def text? : Node → Option String
  | .atom a => a.text
  | _ => none

def bool? : Node → Option Bool
  | .atom a => a.truth
  | _ => none

/-- Whether the node is a value where one may be missing. -/
def isGiven? : Node → Option Bool
  | .atom a => a.isGiven
  | _ => some true

def isBlank : Node → Bool
  | .atom a => a.isBlank
  | _ => false

/-- Whether the node is nothing but no value. -/
def isUnit : Node → Bool
  | .atom a => a.scalar = .null && a.text.isNone
  | _ => false

/-- Nothing for no value, and otherwise what `read` makes of the node. -/
def optional? {α : Type} (read : Node → Option α) (n : Node) : Option (Option α) := do
  if ← n.isGiven? then (read n).map some else some none

/-- The choice that an atom names by its word, or else by its place among the words. -/
def chosen? {α : Type} (words : List (String × α)) : Node → Option α
  | .atom a =>
    match a.word with
    | some s => words.lookup s
    | none => a.place.bind fun i => (words.map (·.2))[i]?
  | _ => none

/-- The choice that a word names; it may also be named by the only key of an object, over no
value. -/
def word? {α : Type} (words : List (String × α)) : Node → Option α
  | .atom a => a.word.bind fun s => words.lookup s
  | .object [(key, value)] => if value.isUnit then key.chosen? words else none
  | _ => none

/-! ### Collections -/

def unmarked : Node → Node
  | .marked n => n.unmarked
  | n => n

/-- The items, each read by `read`. -/
def list? {α : Type} (read : Node → Option α) (n : Node) : Option (List α) :=
  match n.unmarked with
  | .list _ items => items.mapM read
  | n => if n.isBlank then some [] else none

/-- The members as a table; of two members with one key the later counts. -/
def table? {α : Type} (read : Node → Option α) (n : Node) : Option (Table α) :=
  match n.unmarked with
  | .object members =>
    (members.mapM fun (m : Node × Node) => do return (← m.1.text?, ← read m.2)).map Table.ofList
  | n => if n.isBlank then some .empty else none

/-! ### Sections -/

/-- The name that a key means. Where a key has no text, its place counts the declared names; one
beyond them means no member, and so does the empty name. -/
def memberName? (names : List String) : Node → Option String
  | .atom a => a.text.or (a.place.map fun i => names.getD i "")
  | _ => none

/-- The one member of a name, if there is one; a name that occurs twice is refused. -/
def member? (names : List String) (members : List (Node × Node)) (name : String) :
    Option (Option Node) :=
  match members.filter fun m => memberName? names m.1 = some name with
  | [] => some none
  | [m] => some (some m.2)
  | _ => none

/-- The declared members of an object in declared order; other members are passed over. -/
def record? (names : List String) (n : Node) : Option (List (Option Node)) :=
  match n.unmarked with
  | .object members =>
    if members.all fun m => (memberName? names m.1).isSome then
      names.mapM (member? names members)
    else none
  | _ => none

/-- The declared members of a section in declared order. -/
def section? (names : List String) (n : Node) : Option (List (Option Node)) :=
  match n.unmarked with
  | .list positional items =>
    if positional && items.length ≤ names.length then
      some (items.map some ++ List.replicate (names.length - items.length) none)
    else none
  | n => if n.isBlank then some (names.map fun _ => none) else n.record? names

def required? {α : Type} (read : Node → Option α) : Option Node → Option α
  | none => none
  | some n => read n

def withDefault? {α : Type} (default : α) (read : Node → Option α) : Option Node → Option α
  | none => some default
  | some n => read n

end Node

end Injector
