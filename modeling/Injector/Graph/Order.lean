import Injector.Graph

/-!
# Dependency order

The identifiers that a definition needs, each after those that it needs in turn. A survey finds
them breadth first, together with the edges between them. A walk then goes through what was found
depth first, and finishes an identifier when everything that it leads to is finished; one that it
comes to again is passed over, so that cycles end.
-/

namespace Injector

/-- What a breadth-first survey has found, in the order in which it was found. -/
structure Survey where
  nodes : List Identifier
  edges : List (Identifier × Identifier) := []
  /-- The nodes whose dependencies are still to be looked up. -/
  queue : List Identifier
deriving Repr

/-- How far a depth-first walk has come. -/
structure Walk where
  /-- Where it goes next, the top first. A node may be there several times. -/
  stack : List Identifier
  discovered : List Identifier := []
  /-- The nodes that are finished, the last one first. -/
  finished : List Identifier := []
deriving Repr

namespace Graph

/-- The dependencies of an identifier that the graph defines, in ascending order. -/
def edges (g : Graph) (id : Identifier) : List Identifier :=
  ((g.find? id).elim [] Definition.dependencies).filter g.contains

end Graph

namespace Survey

/-- Add an edge, and the node it leads to if that is new. -/
def link (a : Identifier) (s : Survey) (b : Identifier) : Survey :=
  let s := if b ∈ s.nodes then s
    else { s with nodes := s.nodes ++ [b], queue := s.queue ++ [b] }
  { s with edges := s.edges ++ [(a, b)] }

/-- Take a node off the queue and add the edges to its dependencies. -/
def next (g : Graph) (s : Survey) : Survey :=
  match s.queue with
  | [] => s
  | a :: rest => (g.edges a).foldl (link a) { s with queue := rest }

/-- The nodes that the edges of a node lead to, the edge that was added last first. -/
def neighbours (s : Survey) (a : Identifier) : List Identifier :=
  ((s.edges.filter (·.1 = a)).map (·.2)).reverse

end Survey

namespace Walk

/-- Put a node on the stack, unless it has been discovered. -/
def push (w : Walk) (b : Identifier) : Walk :=
  if b ∈ w.discovered then w else { w with stack := b :: w.stack }

/-- Look at the top of the stack. A node that is new stays there, below its neighbours; one that
was discovered before is taken off, and is finished by that unless it is already. -/
def next (s : Survey) (w : Walk) : Walk :=
  match w.stack with
  | [] => w
  | a :: rest =>
    if a ∉ w.discovered then
      (s.neighbours a).foldl push { w with discovered := a :: w.discovered }
    else if a ∉ w.finished then { w with stack := rest, finished := a :: w.finished }
    else { w with stack := rest }

end Walk

/-- The walk through what was found, from a node to its end. Every round discovers a node or takes
off the stack what is put there once: the start, or the end of an edge. -/
def Survey.walk (s : Survey) (id : Identifier) : Walk :=
  Nat.repeat (Walk.next s) (s.nodes.length + s.edges.length + 1) { stack := [id] }

namespace Graph

/-- The survey from an identifier to its end. No definition is queued twice, so there are at most
as many rounds as definitions. -/
def survey (g : Graph) (id : Identifier) : Survey :=
  Nat.repeat (Survey.next g) g.size { nodes := [id], queue := [id] }

/-- What an identifier needs, itself included, dependencies first. -/
def dependencyOrder (g : Graph) (id : Identifier) : List Identifier :=
  if g.contains id then ((g.survey id).walk id).finished.reverse else []

end Graph

end Injector
