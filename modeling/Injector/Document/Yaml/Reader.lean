import Injector.Document.Node
import Injector.Document.Yaml.Tag
import Injector.Document.Yaml.Tree

/-!
# Reading YAML

The node of the one document of a text. An anchor is replaced by a number, and another occurrence
of what has it by what has that number; the numbers count different names, so a name that is used
twice may leave a number to two anchors, of which the later counts. What is nested too deep, and
what takes too many of these replacements, is well-formed but unreadable.
-/

namespace Injector.Yaml

/-! ### Anchors -/

abbrev Anchors := List (String × Nat)

/-- The properties with their anchor numbered, and the anchors after them. -/
def Properties.number (known : Anchors) (p : Properties String) : Anchors × Properties Nat :=
  match p.anchor with
  | none => (known, { tag := p.tag })
  | some name =>
    ((name, known.length) :: known.filter (·.1 ≠ name),
      { anchor := some known.length, tag := p.tag })

mutual

/-- The tree with its anchors numbered, and the anchors after it. An anchor has to come before its
other occurrences. -/
def Tree.number? (known : Anchors) : Tree String → Option (Anchors × Tree Nat)
  | .again name => (known.lookup name).map fun n => (known, .again n)
  | .scalar p style s =>
    let (known, p) := p.number known
    some (known, .scalar p style s)
  | .sequence p items => do
    let (known, p) := p.number known
    let (known, items) ← numberItems? known items
    return (known, .sequence p items)
  | .mapping p members => do
    let (known, p) := p.number known
    let (known, members) ← numberMembers? known members
    return (known, .mapping p members)

def numberItems? (known : Anchors) : List (Tree String) → Option (Anchors × List (Tree Nat))
  | [] => some (known, [])
  | t :: ts => do
    let (known, t) ← t.number? known
    let (known, ts) ← numberItems? known ts
    return (known, t :: ts)

def numberMembers? (known : Anchors) : List (Tree String × Tree String) →
    Option (Anchors × List (Tree Nat × Tree Nat))
  | [] => some (known, [])
  | (k, t) :: ms => do
    let (known, k) ← k.number? known
    let (known, t) ← t.number? known
    let (known, ms) ← numberMembers? known ms
    return (known, (k, t) :: ms)

end

/-- The tree as a list of itself with its anchor, if it has one. -/
def Properties.anchored (p : Properties Nat) (t : Tree Nat) : List (Nat × Tree Nat) :=
  p.anchor.toList.map (·, t)

mutual

/-- What has anchors, in the order written. -/
def Tree.anchored : Tree Nat → List (Nat × Tree Nat)
  | .again _ => []
  | .scalar p style s => p.anchored (.scalar p style s)
  | .sequence p items => p.anchored (.sequence p items) ++ anchoredItems items
  | .mapping p members => p.anchored (.mapping p members) ++ anchoredMembers members

def anchoredItems : List (Tree Nat) → List (Nat × Tree Nat)
  | [] => []
  | t :: ts => t.anchored ++ anchoredItems ts

def anchoredMembers : List (Tree Nat × Tree Nat) → List (Nat × Tree Nat)
  | [] => []
  | (k, t) :: ms => k.anchored ++ t.anchored ++ anchoredMembers ms

end

mutual

/-- How many steps it takes to go through a tree: one for every part without parts, and two for
every collection. -/
def Tree.steps : Tree Nat → Nat
  | .again _ => 1
  | .scalar .. => 1
  | .sequence _ items => 2 + itemSteps items
  | .mapping _ members => 2 + memberSteps members

/-- How many steps it takes to go through some items. -/
def itemSteps : List (Tree Nat) → Nat
  | [] => 0
  | t :: ts => t.steps + itemSteps ts

/-- How many steps it takes to go through some members. -/
def memberSteps : List (Tree Nat × Tree Nat) → Nat
  | [] => 0
  | (k, t) :: ms => k.steps + t.steps + memberSteps ms

end

/-! ### Nodes -/

/-- A node, and how many replacements it takes. -/
structure Expansion where
  node : Node
  /-- The number of replacements. -/
  cost : Nat

/-- The expansion, unreadable if it takes more than `limit` replacements. -/
def Expansion.within (limit : Nat) (e : Expansion) : Expansion :=
  if e.cost ≤ limit then e else { e with node := Scalar.unreadable.node }

def Properties.marked {α : Type} (p : Properties α) (n : Node) : Node :=
  if (p.tag.bind mark?).isSome then .marked n else n

/-- What the numbers of anchors stand for at a depth, and then one level deeper, and so on as long
as collections are readable. -/
abbrev Meanings := List (List (Nat × Expansion))

mutual

def Tree.expand (limit : Nat) (meanings : Meanings) : Tree Nat → Expansion
  | .again n =>
    let e := ((meanings.headD []).lookup n).getD ⟨Scalar.unreadable.node, 0⟩
    { e with cost := e.cost + 1 }.within limit
  | .scalar p style s => ⟨.atom (scalarAtom p.tag style s), 0⟩
  | .sequence p items =>
    match meanings with
    | _ :: m :: ms =>
      let (nodes, cost) := expandItems limit (m :: ms) items
      Expansion.within limit ⟨p.marked (.list false nodes), cost⟩
    | _ => ⟨Scalar.unreadable.node, 0⟩
  | .mapping p members =>
    match meanings with
    | _ :: m :: ms =>
      let (nodes, cost) := expandMembers limit (m :: ms) members
      ⟨p.marked (.object nodes), cost⟩
    | _ => ⟨Scalar.unreadable.node, 0⟩

def expandItems (limit : Nat) (meanings : Meanings) : List (Tree Nat) → List Node × Nat
  | [] => ([], 0)
  | t :: ts =>
    let e := t.expand limit meanings
    let (nodes, cost) := expandItems limit meanings ts
    (e.node :: nodes, e.cost + cost)

def expandMembers (limit : Nat) (meanings : Meanings) : List (Tree Nat × Tree Nat) →
    List (Node × Node) × Nat
  | [] => ([], 0)
  | (k, t) :: ms =>
    let key := k.expand limit meanings
    let value := t.expand limit meanings
    let (nodes, cost) := expandMembers limit meanings ms
    ((key.node, value.node) :: nodes, key.cost + value.cost + cost)

end

/-- What numbers of anchors stand for where so many levels are readable. -/
def meaningsWithin (limit : Nat) (anchored : List (Nat × Tree Nat)) : (room : Nat) → Meanings
  | 0 => [anchored.map fun a => (a.1, a.2.expand limit [])]
  | room + 1 =>
    let ms := meaningsWithin limit anchored room
    anchored.map (fun a => (a.1, a.2.expand limit ([] :: ms))) :: ms

def depthLimit : Nat := 128

/-- The node of a tree. Of two anchors with one number the later counts. -/
def Tree.node (t : Tree Nat) : Node :=
  let limit := 100 * t.steps
  (t.expand limit (meaningsWithin limit t.anchored.reverse depthLimit)).node

def read? (s : String) : Option Node := do
  match ← Tree.ofTokens? (← tokens? s) with
  | none => return .atom (scalarAtom none .plain "")
  | some t =>
    let (_, t) ← t.number? []
    return t.node

end Injector.Yaml
