import Injector.Proofs.Container.Code

/-!
# The text of a container

The text of a container, line by line: the type with a field for each kept instance, the table of
what is exposed, the constructor that initialises the fields, the common methods, and the methods
with their bodies.
-/

namespace Injector

/-! ### What writing adds -/

namespace Writer

/-- Writing something at a depth adds some lines, whatever was written before, and goes on at
another depth. -/
def Adds (f : Writer → Writer) (depth depth' : Nat) (ls : List String) : Prop :=
  ∀ s, f ⟨s, depth⟩ = ⟨s ++ unlines ls, depth'⟩

/-- A line at a depth; an empty one is not indented. -/
def lineAt (depth : Nat) (s : String) : String :=
  if s = "" then "" else String.join (List.replicate depth oneLevel) ++ s

variable {f g : Writer → Writer} {depth depth' depth'' : Nat} {ls ls' : List String}

lemma Adds.comp (h : Adds f depth depth' ls) (h' : Adds g depth' depth'' ls') :
    Adds (fun w => g (f w)) depth depth'' (ls ++ ls') := by
  intro s
  show g (f ⟨s, depth⟩) = _
  rw [h, h', unlines_append, String.append_assoc]

lemma Adds.of_eq (h : Adds f depth depth' ls) (eq : ls = ls') : Adds f depth depth' ls' := eq ▸ h

lemma adds_id (depth : Nat) : Adds (fun w => w) depth depth [] := fun s => by simp

lemma adds_line (depth : Nat) (s : String) : Adds (·.line s) depth depth [lineAt depth s] := by
  intro before
  by_cases hs : s = "" <;> simp [line, lineAt, hs, String.append_assoc]

lemma Adds.line (h : Adds f depth depth' ls) (s : String) :
    Adds (fun w => (f w).line s) depth depth' (ls ++ [lineAt depth' s]) :=
  h.comp (adds_line depth' s)

lemma Adds.openLine (h : Adds f depth depth' ls) (s : String) :
    Adds (fun w => (f w).openLine s) depth (depth' + 1) (ls ++ [lineAt depth' s]) := by
  intro before
  show { (f ⟨before, depth⟩).line s with depth := (f ⟨before, depth⟩).depth + 1 } = _
  rw [show (f ⟨before, depth⟩).line s = _ from h.line s before, h before]

lemma Adds.closeLine (h : Adds f depth (depth' + 1) ls) (s : String) :
    Adds (fun w => (f w).closeLine s) depth depth' (ls ++ [lineAt depth' s]) := by
  intro before
  show { f ⟨before, depth⟩ with depth := (f ⟨before, depth⟩).depth - 1 }.line s = _
  rw [h before, unlines_append, ← String.append_assoc]
  exact adds_line depth' s _

lemma adds_foldl {α : Type} {step : Writer → α → Writer} {lines : α → List String}
    (each : ∀ a, Adds (step · a) depth depth (lines a)) (l : List α) :
    Adds (l.foldl step) depth depth (l.flatMap lines) := by
  intro s
  induction l generalizing s with
  | nil => simp
  | cons a l ih =>
    show l.foldl step (step ⟨s, depth⟩ a) = _
    rw [show step ⟨s, depth⟩ a = _ from each a s, show l.foldl step _ = _ from ih _,
      List.flatMap_cons, unlines_append, String.append_assoc]

lemma Adds.foldl {α : Type} {step : Writer → α → Writer} {lines : α → List String}
    (h : Adds f depth depth' ls) (each : ∀ a, Adds (step · a) depth' depth' (lines a))
    (l : List α) : Adds (fun w => l.foldl step (f w)) depth depth' (ls ++ l.flatMap lines) :=
  h.comp (adds_foldl each l)

lemma Adds.lines (h : Adds f depth depth' ls) (s : String) :
    Adds (fun w => (f w).lines s) depth depth' (ls ++ (textLines s).map (lineAt depth')) := by
  rw [List.map_eq_flatMap]
  exact h.foldl (adds_line depth') (textLines s)

end Writer

open Writer

/-! ### The lines of a container -/

/-- The head of a method. -/
def Factory.head (f : Factory) : String :=
  (if f.isPublic then "    pub fn " else "    fn ") ++ f.name ++ "(self: &Arc<Self>) -> " ++ f.type
    ++ " \x7b"

/-- The lines of a method: its purpose, its head, the code of its body and a brace. -/
def Factory.lines (directory : String) (f : Factory) : List String :=
  ["", "    /// " ++ f.purpose, f.head]
    ++ (textLines (f.body.code directory .main).text).map (fun l =>
      if l = "" then "" else "        " ++ l)
    ++ ["    \x7d"]

namespace Container

variable (c : Container)

/-- The type, with a field for each kept instance. -/
def typeLines : List String :=
  ["/// Dependency-injection container.",
    "#[allow(non_snake_case)]",
    "pub struct " ++ c.typeName ++ " \x7b"]
  ++ c.caches.map (fun f => "    " ++ f.name ++ ": std::sync::OnceLock<" ++ f.type ++ ">,")
  ++ ["    activated: Mutex<BTreeSet<&'static str>>,",
    "    activator: Box<dyn Fn(&str) + Send + Sync>,",
    "\x7d"]

/-- The table of what is exposed, with a line for each identifier. -/
def entryLines : List String :=
  ["    /// Public identifiers and the factory building each, in declared order.",
    "    pub const ENTRY_POINTS: &'static [(&'static str, &'static str)] = &["]
  ++ c.entryRows.map (fun r => "        (" ++ quoted r.1 ++ ", " ++ quoted r.2 ++ "),")
  ++ ["    ];"]

/-- The constructors. Each field for a kept instance is initialised, empty. -/
def constructorLines : List String :=
  ["    /// Creates a container whose source activations do nothing.",
    "    pub fn new() -> Arc<Self> \x7b",
    "        Self::with_activator(|_| \x7b\x7d)",
    "    \x7d",
    "",
    "    /// Creates a container calling `activator` once per activated source unit.",
    "    pub fn with_activator(activator: impl Fn(&str) + Send + Sync + 'static) -> Arc<Self> \x7b",
    "        Arc::new(Self \x7b"]
  ++ c.caches.map (fun f => "            " ++ f.name ++ ": std::sync::OnceLock::new(),")
  ++ ["            activated: Mutex::new(BTreeSet::new()),",
    "            activator: Box::new(activator),",
    "        \x7d)",
    "    \x7d"]

/-- The methods that every container has. -/
def commonLines : List String :=
  ["    /// Whether `id` is a public entry point of this container.",
    "    pub fn has(&self, id: &str) -> bool \x7b",
    "        Self::ENTRY_POINTS.iter().any(|(entry, _)| *entry == id)",
    "    \x7d",
    "",
    "    fn activate(&self, source: &'static str) \x7b",
    "        let mut activated = self.activated.lock().unwrap_or_else(PoisonError::into_inner);",
    "        if activated.insert(source) \x7b",
    "            (self.activator)(source);",
    "        \x7d",
    "    \x7d"]

/-- The lines before the methods with bodies. -/
def openingLines : List String :=
  ["// @generated by ironwire. Do not edit.",
    "//",
    "// Entry points: " ++ toString c.entryRows.length ++ ". Definitions: "
      ++ toString c.definitionCount ++ ".",
    "",
    "use std::collections::BTreeSet;",
    "use std::sync::\x7bArc, Mutex, PoisonError\x7d;",
    ""]
  ++ c.typeLines
  ++ ["", "#[allow(non_snake_case, dead_code, clippy::all)]", "impl " ++ c.typeName ++ " \x7b"]
  ++ c.entryLines ++ [""] ++ c.constructorLines ++ [""] ++ commonLines

/-- The lines of a container. -/
def lines (directory : String) : List String :=
  c.openingLines ++ c.factories.flatMap (Factory.lines directory) ++ ["\x7d"]

end Container

/-! ### What the parts of a container add -/

@[simp] lemma lineAt_empty (depth : Nat) : lineAt depth "" = "" := rfl

@[simp] lemma lineAt_zero (s : String) : lineAt 0 s = s := by
  by_cases hs : s = "" <;> simp [lineAt, hs]

section LineAt

variable {s : String} (hs : s ≠ "")
include hs

lemma lineAt_one : lineAt 1 s = "    " ++ s := if_neg hs

lemma lineAt_two : lineAt 2 s = "        " ++ s := if_neg hs

lemma lineAt_three : lineAt 3 s = "            " ++ s := if_neg hs

end LineAt

lemma adds_writeType (c : Container) : Adds c.writeType 0 0 c.typeLines := by
  refine Adds.of_eq (((((adds_id 0).line _).line _).openLine _).foldl (fun f => adds_line 1 _) _
    |>.line _ |>.line _ |>.closeLine _) ?_
  simp [Container.typeLines, lineAt_one, ← List.map_eq_flatMap, String.append_assoc]

lemma adds_writeEntries (c : Container) : Adds c.writeEntries 1 1 c.entryLines := by
  refine Adds.of_eq ((((adds_id 1).line _).openLine _).foldl (fun r => adds_line 2 _) _
    |>.closeLine _) ?_
  have opened : ∀ rest, "        " ++ ("(" ++ rest) = "        (" ++ rest :=
    fun rest => (String.append_assoc ..).symm
  simp [Container.entryLines, lineAt_one, lineAt_two, opened, ← List.map_eq_flatMap,
    String.append_assoc]

lemma adds_writeConstructors (c : Container) :
    Adds c.writeConstructors 1 1 c.constructorLines := by
  refine Adds.of_eq ((((adds_id 1).line _).openLine _).line _ |>.closeLine _ |>.line _ |>.line _
    |>.openLine _ |>.openLine _ |>.foldl (fun f => adds_line 3 _) _ |>.line _ |>.line _
    |>.closeLine _ |>.closeLine _) ?_
  simp [Container.constructorLines, lineAt_one, lineAt_two, lineAt_three, ← List.map_eq_flatMap,
    String.append_assoc]

lemma adds_writeCommonMethods : Adds writeCommonMethods 1 1 Container.commonLines := by
  refine Adds.of_eq ((((adds_id 1).line _).openLine _).line _ |>.closeLine _ |>.line _
    |>.openLine _ |>.line _ |>.openLine _ |>.line _ |>.closeLine _ |>.closeLine _) ?_
  simp [Container.commonLines, lineAt_one, lineAt_two, lineAt_three]

lemma adds_factory (directory : String) (f : Factory) :
    Adds (Factory.write directory · f) 1 1 (f.lines directory) := by
  refine Adds.of_eq (((((adds_id 1).line _).line _).openLine _).lines _ |>.closeLine _) ?_
  have body : (textLines (f.body.text directory .main)).map (lineAt 2) =
      (textLines (f.body.code directory .main).text).map fun l =>
        if l = "" then "" else "        " ++ l := by
    rw [f.body.text_code directory .main]
    rfl
  have purpose : ∀ rest, "    " ++ ("/// " ++ rest) = "    /// " ++ rest :=
    fun rest => (String.append_assoc ..).symm
  have head : ∀ rest, "    " ++ ((if f.isPublic then "pub " else "") ++ ("fn " ++ rest)) =
      (if f.isPublic then "    pub fn " else "    fn ") ++ rest := by
    intro rest
    cases f.isPublic <;> exact (String.append_assoc ..).symm
  simp [Factory.lines, Factory.head, body, purpose, head, lineAt_one, String.append_assoc]

/-- The text of a container consists of its lines. -/
theorem Container.text_eq (directory : String) (c : Container) :
    c.text directory = unlines (c.lines directory) := by
  have head : Adds (fun w => w
    |>.line "// @generated by ironwire. Do not edit."
    |>.line "//"
    |>.line ("// Entry points: " ++ toString c.entryRows.length ++ ". Definitions: "
      ++ toString c.definitionCount ++ ".")
    |>.blank
    |>.line "use std::collections::BTreeSet;"
    |>.line "use std::sync::\x7bArc, Mutex, PoisonError\x7d;"
    |>.blank) 0 0 _ :=
    (((((((adds_id 0).line _).line _).line _).line _).line _).line _).line _
  have parts := (((((((head.comp (adds_writeType c)).line "").line
    "#[allow(non_snake_case, dead_code, clippy::all)]").openLine
      ("impl " ++ c.typeName ++ " \x7b")).comp (adds_writeEntries c)).line "").comp
    (adds_writeConstructors c)).line "" |>.comp adds_writeCommonMethods
  have all := (parts.foldl (adds_factory directory) c.factories).closeLine ("\x7d" ++ "")
  refine (congrArg Writer.text (all "")).trans ?_
  simp [Container.lines, Container.openingLines]

end Injector
