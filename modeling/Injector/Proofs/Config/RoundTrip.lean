import Injector.Config.Decode
import Injector.Proofs.Document.Json.Printer
import Injector.Proofs.Document.Node

/-!
# Reading written configurations

What is read from a written configuration is the configuration, as long as no floating-point number
is in it. The choices that carry no mark are the point: no alternative that is tried before the
right one takes what is written for the right one.
-/

namespace Injector

open Node

/-! ### Literals -/

namespace Literal

mutual

/-- Whether no floating-point number is in a literal. -/
def isFloatFree : Literal → Bool
  | .float _ => false
  | .list items => areFloatFree items
  | .null | .bool _ | .integer _ | .text _ => true

def areFloatFree : List Literal → Bool
  | [] => true
  | a :: as => isFloatFree a && areFloatFree as

end

/-- A whole number of 64 bits is read as one. -/
lemma ofScalar?_integer (n : Int64) : ofScalar? (.integer n.toInt) = some (.integer n) := by
  have least : -(twoTo 63 : Int) ≤ n.toInt := n.le_toInt
  have greatest : n.toInt < (twoTo 63 : Int) := n.toInt_lt
  rw [ofScalar?, if_pos ⟨least, greatest⟩, Int64.ofInt_toInt]

mutual

lemma ofSettled?_toNode : (l : Literal) → l.isFloatFree → ofSettled? l.document.toNode = some l
  | .null, _ | .bool _, _ | .text _, _ => rfl
  | .integer n, _ => ofScalar?_integer n
  | .float _, free => nomatch free
  | .list items, free => by
    rw [document, Document.toNode, ofSettled?, ofSettledItems?_toNodes items free]
    rfl

lemma ofSettledItems?_toNodes : (ls : List Literal) → areFloatFree ls →
    ofSettledItems? (toNodes (documents ls)) = some ls
  | [], _ => rfl
  | l :: ls, free => by
    obtain ⟨first, rest⟩ := Bool.and_eq_true_iff.1 free
    rw [documents, toNodes, ofSettledItems?, ofSettled?_toNode l first,
      ofSettledItems?_toNodes ls rest]
    rfl

end

lemma ofNode?_toNode {l : Literal} (free : l.isFloatFree) :
    ofNode? l.document.toNode = some l := by
  rw [ofNode?, Document.settle_toNode, Option.bind_some, ofSettled?_toNode l free]

/-- A literal is not written with members. -/
lemma record?_toNode (l : Literal) (names : List String) :
    l.document.toNode.record? names = none := by
  cases l with
  | float x =>
    rw [document, Document.toNode]
    cases x.isFinite <;> rfl
  | _ => rfl

end Literal

/-! ### Overrides -/

/-- The literal that an override gives. -/
def OverrideValue.literal? : OverrideValue → Option Literal
  | .reference _ => none
  | .value literal => some literal

/-- The literals that overrides give. -/
def Overrides.literals (o : Overrides) : List Literal := o.values.filterMap OverrideValue.literal?

/-- What is written for a literal is no reference. -/
lemma OverrideValue.ofNode?_toNode {o : OverrideValue}
    (free : ∀ l ∈ o.literal?, l.isFloatFree) : ofNode? o.document.toNode = some o := by
  rw [ofNode?, Document.settle_toNode, Option.bind_some, ofSettled?]
  cases o with
  | reference path =>
    rw [document, Document.record?_toNode (by simp)]
    rfl
  | value literal =>
    rw [document, Literal.record?_toNode, Literal.ofSettled?_toNode literal (free literal rfl)]
    rfl

lemma Overrides.ofNode?_toNode {o : Overrides} (free : ∀ l ∈ o.literals, l.isFloatFree) :
    ofNode? o.document.toNode = some o :=
  Document.table?_toNode fun v hv =>
    OverrideValue.ofNode?_toNode (List.forall_mem_filterMap.1 free v hv)

@[simp] lemma Scope.ofNode?_toNode (s : Scope) : ofNode? s.document.toNode = some s := by
  cases s <;> rfl

/-! ### Entry points -/

/-- What an entry point covers is told by the member that it must have. -/
lemma EntryTarget.ofSettled?_toNode (t : EntryTarget) :
    ofSettled? (Document.object t.members).toNode = some t := by
  have distinct : (t.members.map (·.1)).Nodup := by
    cases t <;> simp [members]
  rw [ofSettled?, Document.record?_toNode distinct, Document.record?_toNode distinct]
  cases t <;> rfl

/-- The other members of a written object are written as an object too. -/
lemma otherMembers_toNode (names : List String) (ms : List (String × Document)) :
    otherMembers names (Document.object ms).toNode =
      some (Document.object (ms.filter fun m => !names.contains m.1)).toNode := by
  have others : ((toMembers ms).filter fun m => !(m.1.text?.any names.contains)) =
      toMembers (ms.filter fun m => !names.contains m.1) := by
    rw [toMembers_eq_map, toMembers_eq_map, List.filter_map]
    rfl
  have keys : (toMembers (ms.filter fun m => !names.contains m.1)).mapM
      (fun (m : Node × Node) => m.1.text?.map fun s => (.ofText s, m.2)) =
      some (toMembers (ms.filter fun m => !names.contains m.1)) := by
    rw [toMembers_eq_map, List.mapM_map]
    exact mapM_eq_some_map fun _ _ => rfl
  simp only [Document.toNode, otherMembers, unmarked, others, keys, Option.map_some]

/-- The own members of an entry point are found among those that say what it covers. -/
lemma EntryConfig.record?_toNode (e : EntryConfig) :
    e.document.toNode.record? ownMembers =
      some [some (Document.bool e.fileBased).toNode, some (Document.bool e.autoload).toNode,
        some e.parameters.document.toNode, some e.fields.document.toNode] := by
  obtain ⟨target, _, _, _, _⟩ := e
  rw [document, Document.record?_toNode (by cases target <;> simp [EntryTarget.members])]
  cases target <;> rfl

/-- The members that say what an entry point covers are none of its own. -/
lemma EntryConfig.otherMembers_toNode (e : EntryConfig) :
    otherMembers ownMembers e.document.toNode =
      some (Document.object e.target.members).toNode := by
  obtain ⟨target, _, _, _, _⟩ := e
  rw [document, Injector.otherMembers_toNode]
  cases target <;> rfl

/-- The literals that an entry point gives. -/
def EntryConfig.literals (e : EntryConfig) : List Literal :=
  e.parameters.literals ++ e.fields.literals

lemma EntryConfig.ofNode?_toNode {e : EntryConfig} (free : ∀ l ∈ e.literals, l.isFloatFree) :
    ofNode? e.document.toNode = some e := by
  obtain ⟨parameters, fields⟩ := List.forall_mem_append.1 free
  rw [ofNode?, e.record?_toNode]
  simp [e.otherMembers_toNode, withDefault?, Document.settle_toNode,
    EntryTarget.ofSettled?_toNode, Overrides.ofNode?_toNode parameters,
    Overrides.ofNode?_toNode fields]

/-! ### Hints -/

/-- The literals that the settings of a class give. -/
def ClassSettings.literals (s : ClassSettings) : List Literal :=
  s.parameters.literals ++ s.fields.literals

/-- The literals that a hint gives. -/
def HintConfig.literals : HintConfig → List Literal
  | .context _ => []
  | .implementation _ settings | .own settings => settings.literals

lemma ClassSettings.ofMembers?_toNode {s : ClassSettings}
    (free : ∀ l ∈ s.literals, l.isFloatFree) :
    ofMembers? (some s.scope.document.toNode) (some s.parameters.document.toNode)
      (some s.fields.document.toNode) = some s := by
  obtain ⟨parameters, fields⟩ := List.forall_mem_append.1 free
  simp [ofMembers?, withDefault?, Overrides.ofNode?_toNode parameters,
    Overrides.ofNode?_toNode fields]

lemma ContextTable.ofNode?_toNode (t : ContextTable) : ofNode? t.document.toNode = some t := by
  have consumers : table? text? (Table.document .text t.consumers).toNode = some t.consumers :=
    Document.table?_toNode fun s _ => Document.text?_toNode s
  rw [ofNode?, document, Document.section?_toNode (by simp)]
  simp [lookup_cons, withDefault?, consumers]

/-- A table of consumers is told by its only member, and a class by a member that mere settings do
not have. -/
lemma HintConfig.ofNode?_toNode {h : HintConfig} (free : ∀ l ∈ h.literals, l.isFloatFree) :
    ofNode? h.document.toNode = some h := by
  rw [ofNode?, Document.settle_toNode, Option.bind_some, ofSettled?]
  cases h with
  | context table =>
    rw [document, Document.record?_toNode (by simp)]
    simp [lookup_cons, required?, ContextTable.ofNode?_toNode]
  | implementation cls settings =>
    have distinct : (("class", Document.text cls) :: settings.members).map (·.1) |>.Nodup := by
      simp [ClassSettings.members]
    simp only [document, Document.record?_toNode distinct]
    simp [lookup_cons, required?, ClassSettings.members, ClassSettings.ofMembers?_toNode free]
  | own settings =>
    have distinct : (settings.members.map (·.1)).Nodup := by
      simp [ClassSettings.members]
    simp only [document, Document.record?_toNode distinct]
    simp [lookup_cons, required?, ClassSettings.members, ClassSettings.ofMembers?_toNode free]

lemma WildcardConfig.ofNode?_toNode (w : WildcardConfig) : ofNode? w.document.toNode = some w := by
  rw [ofNode?, document, Document.section?_toNode (by simp)]
  simp [lookup_cons, required?, withDefault?]

/-! ### Sections -/

lemma ContainerSection.ofNode?_toNode (c : ContainerSection) :
    ofNode? c.document.toNode = some c := by
  rw [ofNode?, document, Document.section?_toNode (by simp)]
  simp [lookup_cons, withDefault?, identifiers?]

lemma InjectionSection.ofNode?_toNode (i : InjectionSection) :
    ofNode? i.document.toNode = some i := by
  rw [ofNode?, document, Document.section?_toNode (by simp)]
  simp [lookup_cons, withDefault?]

lemma AutoloadSection.ofNode?_toNode (a : AutoloadSection) :
    ofNode? a.document.toNode = some a := by
  rw [ofNode?, document, Document.section?_toNode (by simp)]
  simp [lookup_cons, withDefault?, identifiers?]

lemma FileSection.ofNode?_toNode (f : FileSection) : ofNode? f.document.toNode = some f := by
  rw [ofNode?, document, Document.section?_toNode (by simp)]
  simp [lookup_cons, withDefault?, identifiers?]

lemma OutputSection.ofNode?_toNode (o : OutputSection) : ofNode? o.document.toNode = some o := by
  rw [ofNode?, document, Document.section?_toNode (by simp)]
  simp [lookup_cons, withDefault?]

namespace Config

/-- The literals that a configuration gives. -/
def literals (c : Config) : List Literal :=
  c.entryPoints.flatMap EntryConfig.literals ++ c.hints.values.flatMap HintConfig.literals

/-- A configuration without floating-point numbers is read from what it is written as. -/
lemma ofNode?_toNode {c : Config} (free : ∀ l ∈ c.literals, l.isFloatFree) :
    ofNode? c.document.toNode = some c := by
  obtain ⟨freeEntries, freeHints⟩ := List.forall_mem_append.1 free
  have entryPoints : list? EntryConfig.ofNode?
      (Document.list (c.entryPoints.map EntryConfig.document)).toNode = some c.entryPoints :=
    Document.list?_toNode fun e he =>
      EntryConfig.ofNode?_toNode (List.forall_mem_flatMap.1 freeEntries e he)
  have hints : table? HintConfig.ofNode?
      (Table.document HintConfig.document c.hints).toNode = some c.hints :=
    Document.table?_toNode fun h hh =>
      HintConfig.ofNode?_toNode (List.forall_mem_flatMap.1 freeHints h hh)
  have wildcards : list? WildcardConfig.ofNode?
      (Document.list (c.wildcards.map WildcardConfig.document)).toNode = some c.wildcards :=
    Document.list?_toNode fun w _ => WildcardConfig.ofNode?_toNode w
  rw [ofNode?, document, Document.section?_toNode (by simp)]
  simp [sections, lookup_cons, withDefault?, ContainerSection.ofNode?_toNode,
    InjectionSection.ofNode?_toNode, AutoloadSection.ofNode?_toNode, FileSection.ofNode?_toNode,
    OutputSection.ofNode?_toNode, entryPoints, hints, wildcards]

end Config

/-! ### Texts -/

mutual

lemma Literal.isExact_document : (l : Literal) → l.isFloatFree → Json.isExact l.document
  | .null, _ | .bool _, _ | .text _, _ => rfl
  | .integer n, _ => by
    have least : -(twoTo 63 : Int) ≤ n.toInt := n.le_toInt
    have greatest : n.toInt < (twoTo 64 : Int) := Int.lt_trans n.toInt_lt (by decide)
    simpa [document, Json.isExact] using ⟨least, greatest⟩
  | .float _, free => nomatch free
  | .list items, free => Literal.areExact_documents items free

lemma Literal.areExact_documents : (ls : List Literal) → areFloatFree ls →
    Json.areExact (documents ls)
  | [], _ => rfl
  | l :: ls, free => by
    obtain ⟨first, rest⟩ := Bool.and_eq_true_iff.1 free
    exact Bool.and_eq_true_iff.2 ⟨isExact_document l first, areExact_documents ls rest⟩

end

@[simp] lemma isExact_ofText? (o : Option String) : Json.isExact (.ofText? o) := by
  cases o <;> rfl

@[simp] lemma isExact_ofTexts (l : List String) : Json.isExact (.ofTexts l) := by
  simp [Document.ofTexts, Json.isExact]

lemma Table.isExact_document {α : Type} {f : α → Document} {t : Table α}
    (each : ∀ a ∈ t.values, Json.isExact (f a)) : Json.isExact (t.document f) := by
  simpa [Table.document, Json.isExact] using fun k a h => each a (List.mem_map_of_mem h)

lemma Overrides.isExact_document {o : Overrides} (free : ∀ l ∈ o.literals, l.isFloatFree) :
    Json.isExact o.document := by
  refine Table.isExact_document fun v hv => ?_
  cases v with
  | reference => rfl
  | value l => exact l.isExact_document (List.forall_mem_filterMap.1 free _ hv l rfl)

lemma EntryConfig.isExact_document {e : EntryConfig} (free : ∀ l ∈ e.literals, l.isFloatFree) :
    Json.isExact e.document := by
  obtain ⟨parameters, fields⟩ := List.forall_mem_append.1 free
  have target : (e.target.members.all fun m => Json.isExact m.2) = true := by
    cases e.target <;> rfl
  simp [document, Json.isExact, Overrides.isExact_document parameters,
    Overrides.isExact_document fields, target, -List.all_eq_true]

lemma HintConfig.isExact_document {h : HintConfig} (free : ∀ l ∈ h.literals, l.isFloatFree) :
    Json.isExact h.document := by
  have settled : ∀ s : ClassSettings, (∀ l ∈ s.literals, l.isFloatFree) →
      (s.members.all fun m => Json.isExact m.2) = true := by
    intro s free
    obtain ⟨parameters, fields⟩ := List.forall_mem_append.1 free
    simp [ClassSettings.members, Scope.document, Json.isExact,
      Overrides.isExact_document parameters, Overrides.isExact_document fields]
  cases h with
  | context table =>
    have consumers : Json.isExact (Table.document .text table.consumers) :=
      Table.isExact_document fun _ _ => rfl
    simp [document, ContextTable.document, Scope.document, Json.isExact, consumers]
  | implementation cls settings =>
    simpa [document, Json.isExact] using settled settings free
  | own settings =>
    simpa [document, Json.isExact] using settled settings free

lemma Config.isExact_document {c : Config} (free : ∀ l ∈ c.literals, l.isFloatFree) :
    Json.isExact c.document := by
  obtain ⟨freeEntries, freeHints⟩ := List.forall_mem_append.1 free
  have entryPoints : ∀ e ∈ c.entryPoints, Json.isExact e.document := fun e he =>
    EntryConfig.isExact_document (List.forall_mem_flatMap.1 freeEntries e he)
  have hints : Json.isExact (Table.document HintConfig.document c.hints) :=
    Table.isExact_document fun h hh =>
      HintConfig.isExact_document (List.forall_mem_flatMap.1 freeHints h hh)
  simpa [document, Json.isExact, hints, ContainerSection.document, InjectionSection.document,
    AutoloadSection.document, FileSection.document, OutputSection.document,
    WildcardConfig.document, Scope.document] using entryPoints

/-- A text that is read as what is written for a configuration is the configuration. -/
lemma Config.ofJson_of_read? {c : Config} (free : ∀ l ∈ c.literals, l.isFloatFree) {text : String}
    (reads : Json.read? text = some c.document.toNode) : ofJson text = .ok c := by
  rw [ofJson, reads, Option.bind_some, ofNode?_toNode free]
  rfl

end Injector
