import Injector.Container.Source
import Injector.Proofs.Text.Lines

/-!
# Generated code in pieces

The text of a body is made of pieces: calls of methods, reads and fills of kept instances, splices of
files, activations of sources, and what is between them. The pieces of a body say what it refers to,
and nothing else in its text was put there to refer to anything.
-/

namespace Injector

/-! ### What bodies refer to -/

namespace Access

/-- The methods that are called to get at an instance. -/
def calls : Access → List String
  | .factory name false _ => [name]
  | _ => []

/-- The files that are spliced in to get at an instance. -/
def splices : Access → List String
  | .factory name true _ => [name]
  | _ => []

/-- The kept instances that are tried first. -/
def reads : Access → List String
  | .factory name _ true => [name]
  | _ => []

end Access

def Value.accesses : Value → List Access
  | .access a => [a]
  | _ => []

namespace Body

/-- How a body gets at other instances. -/
def accesses : Body → List Access
  | .access a => [a]
  | .construct c => c.arguments.flatMap Value.accesses ++ c.fields.flatMap (·.2.accesses)
  | _ => []

/-- The methods that a body calls. -/
def calls (b : Body) : List String :=
  b.accesses.flatMap Access.calls ++ match b with
    | .proxy _ inner => [inner]
    | _ => []

/-- The files that a body splices in. -/
def splices (b : Body) : List String :=
  b.accesses.flatMap Access.splices ++ match b with
    | .splice name => [name]
    | _ => []

/-- The kept instances that a body reads or fills. -/
def keeps (b : Body) : List String :=
  b.accesses.flatMap Access.reads ++ match b with
    | .construct c => c.cache.toList
    | _ => []

end Body

/-! ### Pieces of code -/

/-- A piece of generated code. -/
inductive Piece
  /-- What refers to nothing in the container. -/
  | plain (s : String)
  /-- A call of a method. -/
  | call (name : String)
  /-- A look at a kept instance. -/
  | read (name : String)
  /-- The same, where the instance is made if there is none yet. -/
  | fill (name : String)
  /-- A file in place. -/
  | splice (path : String)
  | activate (unit : String)
deriving DecidableEq, Repr

namespace Piece

variable (s name path unit : String)

def text : Piece → String
  | plain s => s
  | call name => "self." ++ name ++ "()"
  | read name => "self." ++ name ++ ".get()"
  | fill name => "self." ++ name ++ ".get_or_init"
  | splice path => "include!(\"" ++ path ++ "\")"
  | activate unit => "self.activate(" ++ quoted unit ++ ")"

@[simp] lemma text_plain : (plain s).text = s := rfl
@[simp] lemma text_call : (call name).text = "self." ++ name ++ "()" := rfl
@[simp] lemma text_read : (read name).text = "self." ++ name ++ ".get()" := rfl
@[simp] lemma text_fill : (fill name).text = "self." ++ name ++ ".get_or_init" := rfl
@[simp] lemma text_splice : (splice path).text = "include!(\"" ++ path ++ "\")" := rfl
@[simp] lemma text_activate : (activate unit).text = "self.activate(" ++ quoted unit ++ ")" := rfl

def isPlain : Piece → Bool
  | plain _ => true
  | _ => false

/-- What refers to something is parted by no end of a line, if there is no line feed in it. -/
lemma isWhole_text {p : Piece} (refers : p.isPlain = false) (free : '\n' ∉ p.text.toList) :
    IsWhole p.text.toList := by
  cases p with
  | plain => cases refers
  | call | read | fill | splice | activate =>
    exact ⟨by simp, free, by simp [List.getLast?_cons, List.getLast?_append]⟩

end Piece

/-- The text of some pieces. -/
def textOf (ps : List Piece) : String := String.join (ps.map Piece.text)

/-- The code of a body. -/
inductive Code
  | inline (ps : List Piece)
  /-- A block, indented between its braces, with something in front of it and behind it. -/
  | block (front inner back : List Piece)
deriving DecidableEq, Repr

namespace Code

def pieces : Code → List Piece
  | inline ps => ps
  | block front inner back => front ++ inner ++ back

def text : Code → String
  | inline ps => textOf ps
  | block front inner back =>
    textOf front ++ "\x7b\n" ++ indent (textOf inner) ++ "\n\x7d" ++ textOf back

end Code

/-! ### The code of a body -/

/-- What stands before the name of a file in paths from a site. -/
def Site.lead (directory : String) : Site → String
  | .main => directory ++ "/"
  | .placed => ""

section Body

variable (directory : String) (site : Site)

def splicePiece (name : String) : Piece := .splice (site.lead directory ++ name ++ ".rs")

def Access.pieces : Access → List Piece
  | .container => [.plain "Arc::clone(self)"]
  | .factory name spliced kept =>
    let made := if spliced then splicePiece directory site name else .call name
    if kept then [.read name, .plain ".cloned().unwrap_or_else(|| ", made, .plain ")"] else [made]

def Value.pieces : Value → List Piece
  | .access a => a.pieces directory site
  | .literal l => [.plain l.expression]
  | .path s => [.plain s]

/-- The call of the constructor of a class. -/
def Construction.made (c : Construction) : List Piece :=
  [.plain (c.cls ++ "::new(")]
    ++ [Piece.plain ", "].intercalate (c.arguments.map (Value.pieces directory site))
    ++ [.plain ")"]

/-- What sets a field. -/
def setPieces (f : String × Value) : List Piece :=
  [.plain ("entry." ++ f.1 ++ " = ")] ++ f.2.pieces directory site ++ [.plain ";\n"]

/-- The lines of a construction that sets fields. -/
def Construction.setting (c : Construction) : List Piece :=
  [.plain "let mut entry = "] ++ c.made directory site ++ [.plain ";\n"]
    ++ c.fields.flatMap (setPieces directory site) ++ [.plain "Arc::new(entry)"]

def Construction.code (c : Construction) : Code :=
  let front := c.cache.toList.flatMap fun name => [.fill name, .plain "(|| "]
  let back := c.cache.toList.map fun _ => .plain ").clone()"
  if c.fields.isEmpty then
    .inline (front ++ [.plain "Arc::new("] ++ c.made directory site ++ [.plain ")"] ++ back)
  else .block front (c.setting directory site) back

/-- The activations of a proxy, and the call behind them. -/
def proxyPieces (units : List String) (inner : String) : List Piece :=
  units.flatMap (fun unit => [.activate unit, .plain ";\n"]) ++ [.call inner]

/-- The code that is written for a body at a site. -/
def Body.code : Body → Code
  | .access a => .inline (a.pieces directory site)
  | .construct c => c.code directory site
  | .splice name => .inline [splicePiece directory site name]
  | .proxy units inner =>
    match site with
    | .main => .inline (proxyPieces units inner)
    | .placed => .block [] (proxyPieces units inner) []

end Body

/-! ### Texts of bodies -/

section Texts

@[simp] lemma textOf_nil : textOf [] = "" := rfl

@[simp] lemma textOf_cons (p : Piece) (ps : List Piece) :
    textOf (p :: ps) = p.text ++ textOf ps := String.join_cons

@[simp] lemma textOf_append (ps qs : List Piece) : textOf (ps ++ qs) = textOf ps ++ textOf qs := by
  rw [textOf, List.map_append, String.join_append]
  rfl

lemma textOf_intercalate (sep : List Piece) (pss : List (List Piece)) :
    textOf (sep.intercalate pss) = (textOf sep).intercalate (pss.map textOf) := by
  induction pss with
  | nil => rfl
  | cons ps pss ih =>
    cases pss with
    | nil => simp
    | cons qs pss =>
      rw [List.map_cons, List.map_cons, String.intercalate_cons_cons, ← List.map_cons, ← ih]
      simp [List.intercalate, String.append_assoc]

variable (directory : String) (site : Site)

lemma text_splicePiece (name : String) :
    (splicePiece directory site name).text = includeText directory site name := by
  cases site <;> simp [splicePiece, includeText, includePath, placedPath, artifactFile,
    artifactExtension, Site.lead, String.append_assoc]

lemma Access.textOf_pieces (a : Access) :
    textOf (a.pieces directory site) = a.text directory site := by
  have joined : ∀ rest, ".get()" ++ (".cloned().unwrap_or_else(|| " ++ rest) =
      ".get().cloned().unwrap_or_else(|| " ++ rest := fun rest => (String.append_assoc ..).symm
  cases a with
  | container => rfl
  | factory name spliced kept =>
    cases spliced <;> cases kept <;>
      simp [Access.pieces, Access.text, text_splicePiece, callText, joined, String.append_assoc]

lemma Value.textOf_pieces (v : Value) :
    textOf (v.pieces directory site) = v.text directory site := by
  cases v with
  | access a => exact a.textOf_pieces directory site
  | literal | path => simp [Value.pieces, Value.text]

lemma Construction.textOf_made (c : Construction) : textOf (c.made directory site) =
    c.cls ++ "::new(" ++ ", ".intercalate (c.arguments.map (Value.text directory site)) ++ ")" := by
  have arguments : (c.arguments.map (Value.pieces directory site)).map textOf =
      c.arguments.map (Value.text directory site) := by
    rw [List.map_map]
    exact List.map_congr_left fun v _ => v.textOf_pieces directory site
  simp [Construction.made, textOf_intercalate, arguments, String.append_assoc]

lemma textOf_flatMap_setPieces (fs : List (String × Value)) :
    textOf (fs.flatMap (setPieces directory site)) =
      unlines (fs.map fun f => "entry." ++ f.1 ++ " = " ++ f.2.text directory site ++ ";") := by
  induction fs with
  | nil => rfl
  | cons f fs ih =>
    rw [List.flatMap_cons, textOf_append, ih, List.map_cons, unlines_cons]
    simp [setPieces, Value.textOf_pieces, String.append_assoc]

lemma Construction.textOf_setting (c : Construction) : textOf (c.setting directory site) =
    "\n".intercalate (["let mut entry = " ++ (c.cls ++ "::new("
        ++ ", ".intercalate (c.arguments.map (Value.text directory site)) ++ ")") ++ ";"]
      ++ c.fields.map (fun f => "entry." ++ f.1 ++ " = " ++ f.2.text directory site ++ ";")
      ++ ["Arc::new(entry)"]) := by
  have ended : ∀ rest, ")" ++ (";\n" ++ rest) = ");\n" ++ rest :=
    fun rest => (String.append_assoc ..).symm
  rw [intercalate_eq_unlines, unlines_append, ← textOf_flatMap_setPieces]
  simp [setting, textOf_made, ended, String.append_assoc]

lemma Construction.text_code (c : Construction) :
    (c.code directory site).text = c.text directory site := by
  have filled : ∀ rest, ".get_or_init" ++ ("(|| " ++ rest) = ".get_or_init(|| " ++ rest :=
    fun rest => (String.append_assoc ..).symm
  have opened : ∀ rest, ".get_or_init(|| " ++ ("\x7b\n" ++ rest) =
      ".get_or_init(|| \x7b\n" ++ rest := fun rest => (String.append_assoc ..).symm
  cases hf : c.fields.isEmpty <;> cases hc : c.cache <;>
    simp [Construction.code, Construction.text, Code.text, hf, hc, textOf_made, textOf_setting,
      blockText, filled, opened, String.append_assoc]

lemma textOf_proxyPieces (units : List String) (inner : String) :
    textOf (proxyPieces units inner) = "\n".intercalate (proxyLines units inner) := by
  have activations : textOf (units.flatMap fun unit => [.activate unit, .plain ";\n"]) =
      unlines (units.map fun unit => "self.activate(" ++ quoted unit ++ ");") := by
    induction units with
    | nil => rfl
    | cons unit units ih =>
      rw [List.flatMap_cons, textOf_append, ih, List.map_cons, unlines_cons]
      simp [String.append_assoc]
  rw [proxyPieces, textOf_append, activations, proxyLines, intercalate_eq_unlines]
  simp [callText, String.append_assoc]

/-- The text of a body consists of its pieces. -/
theorem Body.text_code (b : Body) : (b.code directory site).text = b.text directory site := by
  cases b with
  | access a => exact a.textOf_pieces directory site
  | construct c => exact c.text_code directory site
  | splice name => simp [Body.code, Body.text, Code.text, text_splicePiece]
  | proxy units inner =>
    cases site <;> simp [Body.code, Body.text, Code.text, blockText, textOf_proxyPieces]

end Texts

/-! ### Pieces on lines -/

lemma isInfix_textOf {p : Piece} {ps : List Piece} (h : p ∈ ps) :
    p.text.toList <:+: (textOf ps).toList := by
  rw [textOf, String.toList_join]
  exact List.infix_of_mem_flatten (List.mem_map_of_mem (List.mem_map_of_mem h))

/-- A piece that no end of a line parts stands in the code that it belongs to. -/
lemma Code.isInfix_text {p : Piece} {code : Code} (whole : IsWhole p.text.toList)
    (h : p ∈ code.pieces) : p.text.toList <:+: code.text.toList := by
  cases code with
  | inline ps => exact isInfix_textOf h
  | block front inner back =>
    simp only [Code.text, String.toList_append, List.append_assoc]
    rcases List.mem_append.1 h with h | h
    · rcases List.mem_append.1 h with h | h
      · exact (isInfix_textOf h).trans (List.prefix_append _ _).isInfix
      · have indented := whole.isInfix_indent (isInfix_textOf h)
        refine List.infix_append_of_infix_right (List.infix_append_of_infix_right ?_)
        exact indented.trans (List.prefix_append _ _).isInfix
    · refine List.infix_append_of_infix_right (List.infix_append_of_infix_right ?_)
      exact List.infix_append_of_infix_right (List.infix_append_of_infix_right (isInfix_textOf h))

/-! ### References in code -/

section References

variable {directory : String} {site : Site} {p : Piece}

lemma mem_intercalate {sep : List Piece} (apart : p ∉ sep) {pss : List (List Piece)} :
    p ∈ sep.intercalate pss ↔ ∃ ps ∈ pss, p ∈ ps := by
  induction pss with
  | nil => simp
  | cons ps pss ih =>
    cases pss with
    | nil => simp
    | cons qs pss => simp [List.intercalate_cons_cons, apart, ih]

lemma Value.mem_pieces (refers : p.isPlain = false) {v : Value} :
    p ∈ v.pieces directory site ↔ ∃ a ∈ v.accesses, p ∈ a.pieces directory site := by
  cases v with
  | access a => simp [Value.pieces, Value.accesses]
  | literal | path =>
    simp only [Value.pieces, Value.accesses, List.mem_singleton, List.not_mem_nil, false_and,
      exists_false, iff_false]
    rintro rfl
    cases refers

/-- A construction refers to the kept instance that it makes, and to what it gets at. -/
lemma Construction.mem_pieces (refers : p.isPlain = false) {c : Construction} :
    p ∈ (c.code directory site).pieces ↔ (∃ name ∈ c.cache, p = .fill name) ∨
      ∃ a ∈ (Body.construct c).accesses, p ∈ a.pieces directory site := by
  have apart : ∀ s, p ≠ .plain s := by
    rintro s rfl
    cases refers
  have made : p ∈ c.made directory site ↔ ∃ v ∈ c.arguments, p ∈ v.pieces directory site := by
    simp [Construction.made, apart, mem_intercalate]
  have setting : p ∈ c.setting directory site ↔ p ∈ c.made directory site ∨
      ∃ f ∈ c.fields, p ∈ f.2.pieces directory site := by
    simp [Construction.setting, setPieces, apart]
  have accesses : (∃ a ∈ (Body.construct c).accesses, p ∈ a.pieces directory site) ↔
      (∃ v ∈ c.arguments, p ∈ v.pieces directory site) ∨
        ∃ f ∈ c.fields, p ∈ f.2.pieces directory site := by
    simp only [Body.accesses, List.mem_append, List.mem_flatMap, Value.mem_pieces refers]
    constructor
    · rintro ⟨a, ⟨v, hv, ha⟩ | ⟨f, hf, ha⟩, hp⟩
      · exact .inl ⟨v, hv, a, ha, hp⟩
      · exact .inr ⟨f, hf, a, ha, hp⟩
    · rintro (⟨v, hv, a, ha, hp⟩ | ⟨f, hf, a, ha, hp⟩)
      · exact ⟨a, .inl ⟨v, hv, ha⟩, hp⟩
      · exact ⟨a, .inr ⟨f, hf, ha⟩, hp⟩
  rw [accesses]
  cases hf : c.fields with
  | nil => cases hc : c.cache <;> simp [Construction.code, Code.pieces, hf, hc, apart, made]
  | cons f fs =>
    rw [hf, made] at setting
    cases hc : c.cache <;> simp [Construction.code, Code.pieces, hf, hc, apart, setting]

lemma Access.mem_pieces_call {a : Access} {name : String} :
    .call name ∈ a.pieces directory site ↔ name ∈ a.calls := by
  cases a with
  | container => simp [Access.pieces, Access.calls]
  | factory n spliced kept =>
    cases spliced <;> cases kept <;> simp [Access.pieces, Access.calls, splicePiece]

lemma Access.mem_pieces_read {a : Access} {name : String} :
    .read name ∈ a.pieces directory site ↔ name ∈ a.reads := by
  cases a with
  | container => simp [Access.pieces, Access.reads]
  | factory n spliced kept =>
    cases spliced <;> cases kept <;> simp [Access.pieces, Access.reads, splicePiece]

lemma Access.mem_pieces_splice {a : Access} {path : String} :
    .splice path ∈ a.pieces directory site ↔
      ∃ name ∈ a.splices, path = site.lead directory ++ name ++ ".rs" := by
  cases a with
  | container => simp [Access.pieces, Access.splices]
  | factory n spliced kept =>
    cases spliced <;> cases kept <;> simp [Access.pieces, Access.splices, splicePiece]

lemma Access.fill_not_mem_pieces {a : Access} {name : String} :
    .fill name ∉ a.pieces directory site := by
  cases a with
  | container => simp [Access.pieces]
  | factory n spliced kept =>
    cases spliced <;> cases kept <;> simp [Access.pieces, splicePiece]

namespace Body

variable {b : Body} {name path : String}

/-- The calls in the code of a body. -/
lemma mem_pieces_call : .call name ∈ (b.code directory site).pieces ↔ name ∈ b.calls := by
  cases b with
  | access a => simp [code, Code.pieces, calls, accesses, Access.mem_pieces_call]
  | construct c =>
    simp [code, Construction.mem_pieces (p := .call name) rfl, calls, Access.mem_pieces_call]
  | splice name => simp [code, Code.pieces, calls, accesses, splicePiece]
  | proxy units inner =>
    cases site <;> simp [code, Code.pieces, calls, accesses, proxyPieces]

/-- The splices in the code of a body, by the paths of the files from where it stands. -/
lemma mem_pieces_splice : .splice path ∈ (b.code directory site).pieces ↔
    ∃ name ∈ b.splices, path = site.lead directory ++ name ++ ".rs" := by
  cases b with
  | access a => simp [code, Code.pieces, splices, accesses, Access.mem_pieces_splice]
  | construct c =>
    simp only [code, Construction.mem_pieces (p := .splice path) rfl, splices, List.append_nil,
      List.mem_flatMap, Access.mem_pieces_splice]
    grind
  | splice name => simp [code, Code.pieces, splices, accesses, splicePiece]
  | proxy units inner =>
    cases site <;> simp [code, Code.pieces, splices, accesses, proxyPieces]

/-- The kept instances in the code of a body. -/
lemma mem_pieces_keep : .read name ∈ (b.code directory site).pieces ∨
    .fill name ∈ (b.code directory site).pieces ↔ name ∈ b.keeps := by
  cases b with
  | access a =>
    simp [code, Code.pieces, keeps, accesses, Access.mem_pieces_read, Access.fill_not_mem_pieces]
  | construct c =>
    simp [code, Construction.mem_pieces (p := .read name) rfl,
      Construction.mem_pieces (p := .fill name) rfl, keeps, Access.mem_pieces_read,
      Access.fill_not_mem_pieces]
  | splice name => simp [code, Code.pieces, keeps, accesses, splicePiece]
  | proxy units inner =>
    cases site <;> simp [code, Code.pieces, keeps, accesses, proxyPieces]

end Body

end References

end Injector
