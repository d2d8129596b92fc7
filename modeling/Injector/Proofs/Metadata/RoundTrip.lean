import Injector.Metadata.Decode
import Injector.Metadata.Encode
import Injector.Proofs.Config.RoundTrip

/-!
# Reading written metadata

What is read from written metadata is the metadata, as long as no default of a parameter is a
floating-point number, has one in it, or is no value: a default that is no value is written like no
default. The same holds of the text, and of the text of a configuration.
-/

namespace Injector

open Node

/-- A literal that is a value is written as one. -/
lemma Literal.isGiven?_toNode {l : Literal} (free : l.isFloatFree) (given : l ≠ .null) :
    l.document.toNode.isGiven? = some true := by
  cases l with
  | null => exact absurd rfl given
  | float => cases free
  | _ => rfl

lemma Literal.optional?_toNode {default : Option Literal}
    (plain : ∀ l ∈ default, l.isFloatFree ∧ l ≠ .null) :
    optional? ofNode? (default.elim .null document).toNode = some default := by
  cases default with
  | none => rfl
  | some l =>
    obtain ⟨free, given⟩ := plain l rfl
    simp [optional?, isGiven?_toNode free given, ofNode?_toNode free]

lemma Parameter.ofNode?_toNode {p : Parameter}
    (plain : ∀ l ∈ p.default, l.isFloatFree ∧ l ≠ .null) :
    ofNode? p.document.toNode = some p := by
  rw [ofNode?, document, Document.section?_toNode (by simp)]
  simp [lookup_cons, required?, withDefault?, Literal.optional?_toNode plain]

lemma Field.ofNode?_toNode (f : Field) : ofNode? f.document.toNode = some f := by
  rw [ofNode?, document, Document.section?_toNode (by simp)]
  simp [lookup_cons, required?, withDefault?]

lemma TypeKind.ofNode?_toNode (k : TypeKind) :
    ofNode? (Document.text k.name).toNode = some k := by
  cases k <;> rfl

/-- The defaults of the parameters of a type. -/
def TypeInfo.defaults (t : TypeInfo) : List Literal := t.parameters.filterMap (·.default)

lemma TypeInfo.ofNode?_toNode {t : TypeInfo}
    (plain : ∀ l ∈ t.defaults, l.isFloatFree ∧ l ≠ .null) :
    ofNode? t.document.toNode = some t := by
  have parameters : list? Parameter.ofNode?
      (Document.list (t.parameters.map Parameter.document)).toNode = some t.parameters :=
    Document.list?_toNode fun p hp =>
      Parameter.ofNode?_toNode (List.forall_mem_filterMap.1 plain p hp)
  have fields : list? Field.ofNode?
      (Document.list (t.fields.map Field.document)).toNode = some t.fields :=
    Document.list?_toNode fun f _ => Field.ofNode?_toNode f
  rw [ofNode?, document, Document.section?_toNode (by simp)]
  simp [lookup_cons, withDefault?, TypeKind.ofNode?_toNode, parameters, fields]

namespace Metadata

/-- The defaults of all parameters. -/
def defaults (m : Metadata) : List Literal := m.values.flatMap TypeInfo.defaults

lemma ofNode?_toNode {m : Metadata} (plain : ∀ l ∈ m.defaults, l.isFloatFree ∧ l ≠ .null) :
    ofNode? m.document.toNode = some m :=
  Document.table?_toNode fun t ht =>
    TypeInfo.ofNode?_toNode (List.forall_mem_flatMap.1 plain t ht)

lemma isExact_document {m : Metadata} (free : ∀ l ∈ m.defaults, l.isFloatFree) :
    Json.isExact m.document := by
  refine Table.isExact_document fun t ht => ?_
  have defaults : ∀ l ∈ t.defaults, l.isFloatFree := List.forall_mem_flatMap.1 free t ht
  have parameters : ∀ p ∈ t.parameters, Json.isExact p.document := by
    intro p hp
    have default : Json.isExact (p.default.elim .null Literal.document) := by
      cases hd : p.default with
      | none => rfl
      | some l => exact l.isExact_document (List.forall_mem_filterMap.1 defaults p hp l hd)
    simp [Parameter.document, Json.isExact, default]
  have fields : ∀ f ∈ t.fields, Json.isExact f.document := by
    intro f _
    simp [Field.document, Json.isExact]
  simpa [TypeInfo.document, Json.isExact] using ⟨parameters, fields⟩

/-- A text that is read as what is written for metadata is the metadata. -/
lemma ofJson_of_read? {m : Metadata} (plain : ∀ l ∈ m.defaults, l.isFloatFree ∧ l ≠ .null)
    {text : String} (reads : Json.read? text = some m.document.toNode) : ofJson text = .ok m := by
  rw [ofJson, reads, Option.bind_some, ofNode?_toNode plain]
  rfl

end Metadata

/-- Configurations and metadata are read from what they are written as: a configuration if no
floating-point number is in its literals, and metadata if none is in the defaults of parameters and
no default is no value. -/
theorem ofNode?_toNode_document :
    (∀ c : Config, (∀ l ∈ c.literals, l.isFloatFree) →
      Config.ofNode? c.document.toNode = some c) ∧
    ∀ m : Metadata, (∀ l ∈ m.defaults, l.isFloatFree ∧ l ≠ .null) →
      Metadata.ofNode? m.document.toNode = some m :=
  ⟨fun _ => Config.ofNode?_toNode, fun _ => Metadata.ofNode?_toNode⟩

/-- A configuration with a hint, an override and an entry point of each kind. -/
def pressConfig : Config where
  entryPoints := [
    { target := .single "press::Editor"
      parameters := .ofList [
        ("desk", .reference "press::DESK"),
        ("pages", .value (.list [.integer 8, .list [.text "extra", .null], .bool true]))] },
    { target := .below "press::archive" true false, fileBased := true }]
  hints := .ofList [
    ("press::Clock", .own { scope := .prototype }),
    ("press::Log", .context {
      default := some "press::FileLog"
      consumers := .ofList [("press::Editor", "press::NullLog")] }),
    ("press::Store", .implementation "press::DiskStore" {
      fields := .ofList [("root", .value (.text "/var/press"))] })]

/-- A type whose first parameter has a default and whose second one has none. -/
def pressMetadata : Metadata :=
  .ofList [("press::Editor", {
    source := some "src/editor.rs"
    parameters := [
      { name := "pages", isOptional := true, default := some (.list [.integer 4, .null]) },
      { name := "log", type := some "press::Log" }]
    fields := [{ name := "desk", type := some "press::Desk", isMarked := true }] })]

theorem ofNode?_toNode_press :
    (∀ l ∈ pressConfig.literals, l.isFloatFree) ∧
    Config.ofNode? pressConfig.document.toNode = some pressConfig ∧
    (∀ l ∈ pressMetadata.defaults, l.isFloatFree ∧ l ≠ .null) ∧
    Metadata.ofNode? pressMetadata.document.toNode = some pressMetadata := by
  have free : ∀ l ∈ pressConfig.literals, l.isFloatFree := by decide
  have plain : ∀ l ∈ pressMetadata.defaults, l.isFloatFree ∧ l ≠ .null := by decide
  exact ⟨free, ofNode?_toNode_document.1 pressConfig free, plain,
    ofNode?_toNode_document.2 pressMetadata plain⟩

/-- Their texts, in one line or spread over several, are read as what they were written for, as long
as lists are not nested too deep. -/
theorem ofJson_document :
    (∀ c : Config, (∀ l ∈ c.literals, l.isFloatFree) → Json.depth c.document ≤ Json.depthLimit →
      Config.ofJson (Json.compact c.document) = .ok c ∧
        Config.ofJson (Json.spread c.document) = .ok c) ∧
    ∀ m : Metadata, (∀ l ∈ m.defaults, l.isFloatFree ∧ l ≠ .null) →
      Json.depth m.document ≤ Json.depthLimit →
      Metadata.ofJson (Json.compact m.document) = .ok m ∧
        Metadata.ofJson (Json.spread m.document) = .ok m := by
  constructor
  · intro c free shallow
    have exact := Config.isExact_document free
    constructor
    · exact Config.ofJson_of_read? free (Json.read?_compact exact shallow)
    · exact Config.ofJson_of_read? free (Json.read?_spread exact shallow)
  · intro m plain shallow
    have exact := Metadata.isExact_document fun l hl => (plain l hl).1
    constructor
    · exact Metadata.ofJson_of_read? plain (Json.read?_compact exact shallow)
    · exact Metadata.ofJson_of_read? plain (Json.read?_spread exact shallow)

theorem ofJson_press :
    (∀ l ∈ pressConfig.literals, l.isFloatFree) ∧
    Json.depth pressConfig.document ≤ Json.depthLimit ∧
    Config.ofJson (Json.spread pressConfig.document) = .ok pressConfig ∧
    (∀ l ∈ pressMetadata.defaults, l.isFloatFree ∧ l ≠ .null) ∧
    Json.depth pressMetadata.document ≤ Json.depthLimit ∧
    Metadata.ofJson (Json.compact pressMetadata.document) = .ok pressMetadata := by
  have free : ∀ l ∈ pressConfig.literals, l.isFloatFree := by decide
  have shallow : Json.depth pressConfig.document ≤ Json.depthLimit := by decide +kernel
  have plain : ∀ l ∈ pressMetadata.defaults, l.isFloatFree ∧ l ≠ .null := by decide
  have shallow' : Json.depth pressMetadata.document ≤ Json.depthLimit := by decide +kernel
  exact ⟨free, shallow, (ofJson_document.1 pressConfig free shallow).2, plain, shallow',
    (ofJson_document.2 pressMetadata plain shallow').1⟩

end Injector
