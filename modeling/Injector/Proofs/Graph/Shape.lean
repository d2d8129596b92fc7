import Injector.Container.Target
import Injector.Resolution
import Mathlib.Logic.Relation

/-!
# Shapes of definitions

Resolution fills in a small part of a definition: the arguments, the fields, the source and the
progress of a class, and the consumers of a class or an alias. The shape of a definition is all the
rest. It says what the definition is called, what it is exposed as and where it forwards to, and no
operation on a graph changes it.
-/

namespace Injector

/-! ### Shapes -/

/-- A class as it was made, with nothing discovered and no consumers. -/
def ClassDefinition.shape (c : ClassDefinition) : ClassDefinition :=
  { c with arguments := [], fields := [], referrers := .empty, progress := .pending,
           sourceUnit := none }

/-- The dependencies among the arguments of a class. -/
def ClassDefinition.argumentDependencies (c : ClassDefinition) : List Identifier :=
  c.arguments.filterMap (·.source.dependency?)

/-- The dependencies among the fields of a class. -/
def ClassDefinition.fieldDependencies (c : ClassDefinition) : List Identifier :=
  c.fields.filterMap (·.source.dependency?)

lemma ClassDefinition.dependencies_eq (c : ClassDefinition) :
    c.dependencies = c.argumentDependencies ++ c.fieldDependencies := by
  rw [dependencies, List.filterMap_append, List.filterMap_map, List.filterMap_map]
  rfl

namespace Definition

/-- A definition as it was made. -/
def shape : Definition → Definition
  | .cls c => .cls c.shape
  | .alias a => .alias { a with referrers := .empty }
  | .container id => .container id
  | .perConsumer id scope entryPoint default branches =>
    .perConsumer id scope entryPoint default branches
  | .autoloaded inner fileBased always => .autoloaded inner.shape fileBased always

@[simp] lemma id_shape (d : Definition) : d.shape.id = d.id := by
  induction d using Definition.id.induct <;> simp_all [shape, ClassDefinition.shape, id]

@[simp] lemma isEntryPoint_shape (d : Definition) : d.shape.isEntryPoint = d.isEntryPoint := by
  induction d using Definition.id.induct <;> simp_all [shape, ClassDefinition.shape, isEntryPoint]

@[simp] lemma forward?_shape (consumer : Identifier) (d : Definition) :
    d.shape.forward? consumer = d.forward? consumer := by
  cases d <;> rfl

@[simp] lemma shape_begun (d : Definition) : d.begun.shape = d.shape := by
  cases d <;> rfl

@[simp] lemma shape_completed (found : ClassDefinition) (d : Definition) :
    (d.completed found).shape = d.shape := by
  cases d <;> rfl

@[simp] lemma shape_addReferrer (consumer : Identifier) (singleton : Bool) (d : Definition) :
    (d.addReferrer consumer singleton).shape = d.shape := by
  induction d using Definition.id.induct <;>
    simp_all [shape, ClassDefinition.shape, addReferrer]

@[simp] lemma namedDependencies_addReferrer (consumer : Identifier) (singleton : Bool)
    (d : Definition) :
    (d.addReferrer consumer singleton).namedDependencies = d.namedDependencies := by
  induction d using Definition.id.induct <;>
    simp_all [addReferrer, namedDependencies, ClassDefinition.dependencies]

/-- Only a class has the shape of a class. -/
lemma eq_cls_of_shape_eq {d : Definition} {c : ClassDefinition} (h : d.shape = .cls c) :
    ∃ c', d = .cls c' ∧ c'.shape = c := by
  cases d <;> simp_all [shape]

/-- Only an alias has the shape of an alias. -/
lemma eq_alias_of_shape_eq {d : Definition} {a : Alias} (h : d.shape = .alias a) :
    ∃ a', d = .alias a' ∧ { a' with referrers := .empty } = a := by
  cases d <;> simp_all [shape]

/-- Nothing is filled in where the branches depend on the consumer. -/
lemma eq_perConsumer_of_shape_eq {d : Definition} {id : Identifier} {scope : Scope}
    {entryPoint : Bool} {default : Option Definition} {branches : List (Identifier × Definition)}
    (h : d.shape = .perConsumer id scope entryPoint default branches) :
    d = .perConsumer id scope entryPoint default branches := by
  cases d <;> simp_all [shape]

end Definition

namespace Graph

/-! ### What a graph keeps -/

/-- The shape of the definition of an identifier. -/
def shape? (g : Graph) (k : Identifier) : Option Definition := (g.find? k).map Definition.shape

lemma shape?_of_find? {g : Graph} {k : Identifier} {d : Definition} (h : g.find? k = some d) :
    g.shape? k = some d.shape := by
  simp [shape?, h]

lemma exists_find?_of_shape? {g : Graph} {k : Identifier} {s : Definition}
    (h : g.shape? k = some s) : ∃ d, g.find? k = some d ∧ d.shape = s := by
  simpa [shape?] using h

/-- Every definition of the one graph is in the other with the same shape. -/
def Keeps (g g' : Graph) : Prop := ∀ k s, g.shape? k = some s → g'.shape? k = some s

lemma Keeps.refl (g : Graph) : g.Keeps g := fun _ _ h => h

lemma Keeps.trans {g g' g'' : Graph} (h : g.Keeps g') (h' : g'.Keeps g'') : g.Keeps g'' :=
  fun k s hk => h' k s (h k s hk)

lemma Keeps.of_shape?_eq {g g' : Graph} (h : ∀ k, g'.shape? k = g.shape? k) : g.Keeps g' :=
  fun k _ hk => (h k).trans hk

lemma Keeps.exists_find? {g g' : Graph} (h : g.Keeps g') {k : Identifier} {d : Definition}
    (hk : g.find? k = some d) : ∃ d', g'.find? k = some d' ∧ d'.shape = d.shape :=
  exists_find?_of_shape? (h k _ (shape?_of_find? hk))

lemma Keeps.contains {g g' : Graph} (h : g.Keeps g') {k : Identifier} (hk : g.contains k) :
    g'.contains k := by
  obtain ⟨d, hd⟩ := Option.isSome_iff_exists.1 hk
  obtain ⟨d', hd', -⟩ := h.exists_find? hd
  exact Option.isSome_iff_exists.2 ⟨d', hd'⟩

/-- A class stays a class of the same shape. -/
lemma Keeps.find?_cls {g g' : Graph} (h : g.Keeps g') {k : Identifier} {c : ClassDefinition}
    (hk : g.find? k = some (.cls c)) :
    ∃ c', g'.find? k = some (.cls c') ∧ c'.shape = c.shape := by
  obtain ⟨d, hd, hs⟩ := h.exists_find? hk
  obtain ⟨c', rfl, hc⟩ := Definition.eq_cls_of_shape_eq hs
  exact ⟨c', hd, hc⟩

/-- What becomes a class in the end is a class. -/
lemma Keeps.exists_cls {g g' : Graph} (h : g.Keeps g') {k : Identifier} {d : Definition}
    {c' : ClassDefinition} (hd : g.find? k = some d) (hk : g'.find? k = some (.cls c')) :
    ∃ c, d = .cls c ∧ c.shape = c'.shape := by
  obtain ⟨d', hd', shape⟩ := h.exists_find? hd
  cases hk.symm.trans hd'
  exact Definition.eq_cls_of_shape_eq shape.symm

lemma Keeps.shape_eq {g g' : Graph} (h : g.Keeps g') {k : Identifier} {c c' : ClassDefinition}
    (hk : g.find? k = some (.cls c)) (hk' : g'.find? k = some (.cls c')) : c'.shape = c.shape := by
  obtain ⟨c₁, hc₁, shape⟩ := h.find?_cls hk
  cases hk'.symm.trans hc₁
  exact shape

/-- Where a definition forwards to is settled when it is made. -/
lemma Keeps.forward? {g g' : Graph} (h : g.Keeps g') {consumer k next : Identifier}
    (hk : g.forward? consumer k = some next) : g'.forward? consumer k = some next := by
  obtain ⟨d, hd, hf⟩ := Option.bind_eq_some_iff.1 hk
  obtain ⟨d', hd', hs⟩ := h.exists_find? hd
  rw [Graph.forward?, hd', Option.bind_some, ← Definition.forward?_shape, hs,
    Definition.forward?_shape, hf]

/-- A definition that is there already forwards to where it will forward to. -/
lemma Keeps.forward?_eq {g g' : Graph} (h : g.Keeps g') {consumer k : Identifier}
    (hk : g.contains k) : g'.forward? consumer k = g.forward? consumer k := by
  obtain ⟨d, hd⟩ := Option.isSome_iff_exists.1 hk
  obtain ⟨d', hd', hs⟩ := h.exists_find? (g := g) hd
  rw [Graph.forward?, Graph.forward?, hd', show g.find? k = some d from hd, Option.bind_some,
    Option.bind_some, ← Definition.forward?_shape, hs, Definition.forward?_shape]

/-- A branch that a consumer has is not taken from it. -/
lemma Keeps.checkBranch {g g' : Graph} (h : g.Keeps g') {k : Identifier}
    {consumer : Option Identifier} (hk : g.contains k)
    (hc : Wiring.checkBranch g k consumer = .ok ()) : Wiring.checkBranch g' k consumer = .ok () := by
  obtain ⟨d, hd⟩ := Option.isSome_iff_exists.1 hk
  obtain ⟨d', hd', hs⟩ := h.exists_find? (g := g) hd
  simp only [Wiring.checkBranch] at hc ⊢
  rw [show g.find? k = some d from hd] at hc
  rw [hd']
  cases d with
  | perConsumer id scope entryPoint default branches =>
    rw [Definition.eq_perConsumer_of_shape_eq hs]
    exact hc
  | _ => cases d' <;> simp_all [Definition.shape]

lemma shape?_adjust {f : Definition → Definition} (hf : ∀ d, (f d).shape = d.shape) (g : Graph)
    (id k : Identifier) : (g.adjust id f).shape? k = g.shape? k := by
  simp only [shape?, find?_adjust]
  split
  · cases g.find? k <;> simp [hf]
  · rfl

end Graph

end Injector
