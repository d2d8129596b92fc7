/-!
# Tokens of YAML

The parts that a text falls into: the marks and scalars that are written, and the starts and ends
of block collections, which only show in the indentation.
-/

namespace Injector.Yaml

/-- How a scalar is written. -/
inductive Style
  | plain
  /-- Between quotes of either kind, or as a block of lines that are folded. -/
  | other
  /-- As a block of lines that are kept. -/
  | literal
deriving DecidableEq, Repr

/-- A part of a text. -/
inductive Token
  | version
  /-- A handle of tags, and what it stands for. -/
  | tagHandle (handle meaning : String)
  | documentStart
  | documentEnd
  | blockSequence
  | blockMapping
  | blockEnd
  | flowSequence
  | flowSequenceEnd
  | flowMapping
  | flowMappingEnd
  | entry
  | comma
  | key
  | value
  /-- What has an anchor, once again. -/
  | again (anchor : String)
  | anchor (name : String)
  /-- The tag of what comes next: a handle, which may be empty, and what follows it. -/
  | tag (handle rest : String)
  | scalar (style : Style) (text : String)
deriving DecidableEq, Repr

end Injector.Yaml
