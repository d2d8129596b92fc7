import Injector.Container
import Injector.Literal
import Injector.Text.Lines

/-!
# Source text of containers

How bodies and containers are written. Paths in the main file lead into the directory of the other
files; those in the other files lead to their neighbours.
-/

namespace Injector

/-- The file that a body is written into. -/
inductive Site
  | main
  | placed
deriving DecidableEq, Repr

/-! ### Expressions -/

/-- The path of a placed body as the main file and the list of files give it. -/
def placedPath (directory name : String) : String := directory ++ "/" ++ artifactFile name

def includePath (directory : String) (site : Site) (name : String) : String :=
  match site with
  | .main => placedPath directory name
  | .placed => artifactFile name

def includeText (directory : String) (site : Site) (name : String) : String :=
  "include!(\"" ++ includePath directory site name ++ "\")"

def containerText : String := "Arc::clone(self)"

def callText (name : String) : String := "self." ++ name ++ "()"

def Access.text (directory : String) (site : Site) : Access → String
  | .container => containerText
  | .factory name spliced kept =>
    let call := if spliced then includeText directory site name else callText name
    if kept then "self." ++ name ++ ".get().cloned().unwrap_or_else(|| " ++ call ++ ")" else call

def Value.text (directory : String) (site : Site) : Value → String
  | .access a => a.text directory site
  | .literal l => l.expression
  | .path s => s

def blockText (lines : List String) : String :=
  "\x7b\n" ++ indent ("\n".intercalate lines) ++ "\n\x7d"

def Construction.text (directory : String) (site : Site) (c : Construction) : String :=
  let constructor := c.cls ++ "::new("
    ++ ", ".intercalate (c.arguments.map (Value.text directory site)) ++ ")"
  let instance_ :=
    if c.fields.isEmpty then "Arc::new(" ++ constructor ++ ")"
    else blockText <|
      ["let mut entry = " ++ constructor ++ ";"]
        ++ c.fields.map (fun f => "entry." ++ f.1 ++ " = " ++ f.2.text directory site ++ ";")
        ++ ["Arc::new(entry)"]
  match c.cache with
  | none => instance_
  | some name => "self." ++ name ++ ".get_or_init(|| " ++ instance_ ++ ").clone()"

def proxyLines (units : List String) (inner : String) : List String :=
  units.map (fun unit => "self.activate(" ++ quoted unit ++ ");") ++ [callText inner]

/-- The text of a body; a proxy in a file of its own is a block. -/
def Body.text (directory : String) (site : Site) : Body → String
  | .access a => a.text directory site
  | .construct c => c.text directory site
  | .splice name => includeText directory site name
  | .proxy units inner =>
    match site with
    | .main => "\n".intercalate (proxyLines units inner)
    | .placed => blockText (proxyLines units inner)

/-! ### Files -/

def PlacedBody.text (directory : String) (p : PlacedBody) : String :=
  "// @generated by ironwire for `" ++ p.id ++ "`. Do not edit.\n"
    ++ p.body.text directory .placed ++ "\n"

def Container.writeType (c : Container) (w : Writer) : Writer :=
  let w := w
    |>.line "/// Dependency-injection container."
    |>.line "#[allow(non_snake_case)]"
    |>.openBlock ("pub struct " ++ c.typeName)
  let w := c.caches.foldl
    (fun w f => w.line (f.name ++ ": std::sync::OnceLock<" ++ f.type ++ ">,")) w
  w |>.line "activated: Mutex<BTreeSet<&'static str>>,"
    |>.line "activator: Box<dyn Fn(&str) + Send + Sync>,"
    |>.closeBlock ""

def Container.writeEntries (c : Container) (w : Writer) : Writer :=
  let w := w
    |>.line "/// Public identifiers and the factory building each, in declared order."
    |>.openLine "pub const ENTRY_POINTS: &'static [(&'static str, &'static str)] = &["
  let w := c.entryRows.foldl
    (fun w r => w.line ("(" ++ quoted r.1 ++ ", " ++ quoted r.2 ++ "),")) w
  w.closeLine "];"

def Container.writeConstructors (c : Container) (w : Writer) : Writer :=
  let w := w
    |>.line "/// Creates a container whose source activations do nothing."
    |>.openBlock "pub fn new() -> Arc<Self>"
    |>.line "Self::with_activator(|_| \x7b\x7d)"
    |>.closeBlock ""
    |>.blank
    |>.line "/// Creates a container calling `activator` once per activated source unit."
    |>.openBlock
      "pub fn with_activator(activator: impl Fn(&str) + Send + Sync + 'static) -> Arc<Self>"
    |>.openBlock "Arc::new(Self"
  let w := c.caches.foldl (fun w f => w.line (f.name ++ ": std::sync::OnceLock::new(),")) w
  w |>.line "activated: Mutex::new(BTreeSet::new()),"
    |>.line "activator: Box::new(activator),"
    |>.closeBlock ")"
    |>.closeBlock ""

def writeCommonMethods (w : Writer) : Writer :=
  w |>.line "/// Whether `id` is a public entry point of this container."
    |>.openBlock "pub fn has(&self, id: &str) -> bool"
    |>.line "Self::ENTRY_POINTS.iter().any(|(entry, _)| *entry == id)"
    |>.closeBlock ""
    |>.blank
    |>.openBlock "fn activate(&self, source: &'static str)"
    |>.line "let mut activated = self.activated.lock().unwrap_or_else(PoisonError::into_inner);"
    |>.openBlock "if activated.insert(source)"
    |>.line "(self.activator)(source);"
    |>.closeBlock ""
    |>.closeBlock ""

def Factory.write (directory : String) (w : Writer) (f : Factory) : Writer :=
  w |>.blank
    |>.line ("/// " ++ f.purpose)
    |>.openBlock ((if f.isPublic then "pub " else "") ++ "fn " ++ f.name
      ++ "(self: &Arc<Self>) -> " ++ f.type)
    |>.lines (f.body.text directory .main)
    |>.closeBlock ""

def Container.text (directory : String) (c : Container) : String :=
  let w : Writer := {}
  let w := w
    |>.line "// @generated by ironwire. Do not edit."
    |>.line "//"
    |>.line ("// Entry points: " ++ toString c.entryRows.length ++ ". Definitions: "
      ++ toString c.definitionCount ++ ".")
    |>.blank
    |>.line "use std::collections::BTreeSet;"
    |>.line "use std::sync::\x7bArc, Mutex, PoisonError\x7d;"
    |>.blank
  let w := (c.writeType w).blank
    |>.line "#[allow(non_snake_case, dead_code, clippy::all)]"
    |>.openBlock ("impl " ++ c.typeName)
  let w := writeCommonMethods (c.writeConstructors (c.writeEntries w).blank).blank
  (c.factories.foldl (Factory.write directory) w).closeBlock "" |>.text

end Injector
