import Injector.Document.Basic
import Injector.Number.Text

/-!
# Writing JSON

Two forms of a document: compact, without any space, and spread, with each item and member on a
line of its own, two blanks deeper than what holds it. A mark becomes the only member of an object,
and a number that is not finite becomes no value.
-/

namespace Injector.Json

/-- A text between quotes; quotes, backslashes and controls are escaped. -/
def escapeChar (c : Char) : List Char :=
  if c = '"' then ['\\', '"']
  else if c = '\\' then ['\\', '\\']
  else if c = '\x08' then ['\\', 'b']
  else if c = '\x0c' then ['\\', 'f']
  else if c = '\n' then ['\\', 'n']
  else if c = '\r' then ['\\', 'r']
  else if c = '\t' then ['\\', 't']
  else if c.toNat < 32 then
    ['\\', 'u', '0', '0', Nat.digitChar (c.toNat / 16), Nat.digitChar (c.toNat % 16)]
  else [c]

def textForm (s : String) : String :=
  String.ofList ('"' :: s.toList.flatMap escapeChar ++ ['"'])

/-- A floating-point number, or no value. -/
def floatForm (x : Double) : String := (x.compact? "+").getD "null"

/-- Items between brackets, without any space. -/
def compactGroup (opening closing : String) (items : List String) : String :=
  opening ++ ",".intercalate items ++ closing

mutual

def compact : Document → String
  | .null => "null"
  | .bool b => if b then "true" else "false"
  | .integer n => toString n
  | .float x => floatForm x
  | .text s => textForm s
  | .list items => compactGroup "[" "]" (compactItems items)
  | .object members => compactGroup "\x7b" "\x7d" (compactMembers members)
  | .tagged tag value => compactGroup "\x7b" "\x7d" [textForm tag ++ ":" ++ compact value]

def compactItems : List Document → List String
  | [] => []
  | d :: ds => compact d :: compactItems ds

def compactMembers : List (String × Document) → List String
  | [] => []
  | (k, d) :: ms => (textForm k ++ ":" ++ compact d) :: compactMembers ms

end

def margin (depth : Nat) : String := String.join (List.replicate depth "  ")

/-- Items between brackets, each on a line of its own; no items stay on one line. -/
def spreadGroup (opening closing : String) (depth : Nat) (items : List String) : String :=
  if items.isEmpty then opening ++ closing
  else
    opening ++ "\n" ++ ",\n".intercalate (items.map (margin (depth + 1) ++ ·)) ++ "\n"
      ++ margin depth ++ closing

mutual

def spreadAt (depth : Nat) : Document → String
  | .null => "null"
  | .bool b => if b then "true" else "false"
  | .integer n => toString n
  | .float x => floatForm x
  | .text s => textForm s
  | .list items => spreadGroup "[" "]" depth (spreadItems (depth + 1) items)
  | .object members => spreadGroup "\x7b" "\x7d" depth (spreadMembers (depth + 1) members)
  | .tagged tag value =>
    spreadGroup "\x7b" "\x7d" depth [textForm tag ++ ": " ++ spreadAt (depth + 1) value]

def spreadItems (depth : Nat) : List Document → List String
  | [] => []
  | d :: ds => spreadAt depth d :: spreadItems depth ds

def spreadMembers (depth : Nat) : List (String × Document) → List String
  | [] => []
  | (k, d) :: ms => (textForm k ++ ": " ++ spreadAt depth d) :: spreadMembers depth ms

end

def spread (d : Document) : String := spreadAt 0 d

end Injector.Json
