import Injector.Document.Basic
import Injector.Document.Yaml.Cursor
import Injector.Document.Yaml.Plain
import Injector.Number.Text

/-!
# Writing YAML

The block form of a document: members and items on lines of their own, the items of a list in the
column of the key above them, and a mark as a tag before its value. A text is written plain where
it reads back as the same text; otherwise in single quotes, in double quotes if a character needs
an escape, or as a block of lines.
-/

namespace Injector.Yaml

/-! ### The shape of a text -/

def isClear (c : Char) : Bool :=
  let n := c.toNat
  n = 10 || (0x20 ≤ n && n ≤ 0x7e) || (0xa0 ≤ n && n ≤ 0xd7ff)
    || (0xe000 ≤ n && n ≤ 0xfffd && n ≠ 0xfeff) || 0x10000 ≤ n

/-- Whether a character begins something other than a plain scalar. -/
def isLeadingIndicator (c : Char) : Bool :=
  ['#', ',', '[', ']', '\x7b', '\x7d', '&', '*', '!', '|', '>', '\'', '"', '%', '@',
    '\x60'].contains c

/-- Whether a colon or a comment sign inside a text would part it; `blank` tells whether a blank
stands before. -/
def hasInnerIndicator (blank : Bool) : List Char → Bool
  | [] => false
  | c :: cs =>
    (c = ':' && startsBlank cs) || (c = '#' && blank)
      || hasInnerIndicator (startsBlank (c :: cs)) cs

/-- Whether the front of a text would be read as something other than a plain scalar. -/
def hasLeadingIndicator (cs : List Char) : Bool :=
  cs.take 3 = ['-', '-', '-'] || cs.take 3 = ['.', '.', '.'] ||
    match cs with
    | [] => false
    | c :: rest =>
      isLeadingIndicator c || ((c = '?' || c = ':' || c = '-') && startsBlank rest)

/-- Whether a space stands right before the end of a line. -/
def hasSpaceBeforeBreak : List Char → Bool
  | [] => false
  | c :: cs => (c = ' ' && cs.head?.any isBreak) || hasSpaceBeforeBreak cs

/-- Whether a space stands right after the end of a line. -/
def hasSpaceAfterBreak : List Char → Bool
  | [] => false
  | c :: cs => (isBreak c && cs.head? = some ' ') || hasSpaceAfterBreak cs

def isSingleAllowed (cs : List Char) : Bool :=
  cs.all isClear && !hasSpaceBeforeBreak cs && !hasSpaceAfterBreak cs

def isBlockAllowed (cs : List Char) : Bool :=
  cs.all isClear && cs.getLast? ≠ some ' ' && !hasSpaceBeforeBreak cs

def isPlainAllowed (cs : List Char) : Bool :=
  cs.all isClear && !cs.any isBreak && cs.head? ≠ some ' ' && cs.getLast? ≠ some ' '
    && !hasLeadingIndicator cs && !hasInnerIndicator (startsBlank cs) (cs.drop 1)

/-! ### Texts -/

/-- Whether a text without quotes would stand for something else. -/
def isAmbiguous (s : String) : Bool :=
  plainScalar s ≠ .text s || hasIdleZero (unsigned s.toList)
where
  unsigned : List Char → List Char
    | '+' :: cs => cs
    | '-' :: cs => cs
    | cs => cs

/-- The digits of a code point in a base of sixteen, in capitals, filled up to a width. -/
def hexDigits (width n : Nat) : List Char :=
  let ds := (Nat.toDigits 16 n).map Char.toUpper
  List.replicate (width - ds.length) '0' ++ ds

def escapeChar (c : Char) : List Char :=
  let n := c.toNat
  if n = 0 then ['\\', '0']
  else if n = 7 then ['\\', 'a']
  else if n = 8 then ['\\', 'b']
  else if c = '\t' then ['\\', 't']
  else if c = '\n' then ['\\', 'n']
  else if n = 11 then ['\\', 'v']
  else if n = 12 then ['\\', 'f']
  else if c = '\r' then ['\\', 'r']
  else if n = 27 then ['\\', 'e']
  else if c = '"' then ['\\', '"']
  else if c = '\\' then ['\\', '\\']
  else if n = 0x85 then ['\\', 'N']
  else if n = 0x2028 then ['\\', 'L']
  else if n = 0x2029 then ['\\', 'P']
  else if isClear c then [c]
  else if n ≤ 0xff then '\\' :: 'x' :: hexDigits 2 n
  else if n ≤ 0xffff then '\\' :: 'u' :: hexDigits 4 n
  else '\\' :: 'U' :: hexDigits 8 n

def doubleQuoted (s : String) : String :=
  String.ofList ('"' :: s.toList.flatMap escapeChar ++ ['"'])

def blanks (column : Nat) : String := String.ofList (List.replicate column ' ')

/-- The rest of a text in single quotes. What begins a line stands in a column, also the quote at
the end. -/
def singleChars (column : Nat) : (atStart : Bool) → List Char → List Char
  | atStart, [] => if atStart then List.replicate column ' ' else []
  | atStart, c :: cs =>
    if isBreak c then c :: singleChars column true cs
    else
      (if atStart then List.replicate column ' ' else [])
        ++ (if c = '\'' then ['\'', '\''] else [c]) ++ singleChars column false cs

def singleQuoted (column : Nat) (s : String) : String :=
  String.ofList ('\'' :: singleChars column false s.toList ++ ['\''])

/-- What a block of lines says about the front and the end of its text. -/
def blockHints (cs : List Char) : String :=
  let front := if cs.head?.any (fun c => c = ' ' || isBreak c) then "2" else ""
  let back :=
    match cs.reverse with
    | [] => "-"
    | [b] => if isBreak b then "+" else "-"
    | b :: a :: _ => if !isBreak b then "-" else if isBreak a then "+" else ""
  front ++ back

/-- The rest of a block of lines. What begins a line stands in a column. -/
def blockChars (column : Nat) : (atStart : Bool) → List Char → List Char
  | _, [] => []
  | atStart, c :: cs =>
    if isBreak c then c :: blockChars column true cs
    else (if atStart then List.replicate column ' ' else []) ++ c :: blockChars column false cs

/-- The text as a block of lines in a column, up to the end of the last one. -/
def blockText (column : Nat) (s : String) : String :=
  let cs := s.toList
  "|" ++ blockHints cs ++ "\n" ++ String.ofList (blockChars column true cs)
    ++ if cs.getLast?.any isBreak then "" else "\n"

/-- A text on one line, or between quotes with its later lines in a column. -/
def textForm (column : Nat) (s : String) : String :=
  let cs := s.toList
  if !isAmbiguous s && isPlainAllowed cs then s
  else if isSingleAllowed cs && !cs.contains '\n' then singleQuoted column s
  else doubleQuoted s

/-- A text with its later lines in a column, up to the end of the last one. -/
def textLines (column : Nat) (s : String) : String :=
  let cs := s.toList
  if cs.contains '\n' && isBlockAllowed cs then blockText column s
  else textForm column s ++ "\n"

def floatForm (x : Double) : String :=
  match x.magnitude with
  | .nan => ".nan"
  | .infinite => x.signText ++ ".inf"
  | .finite .. => (x.compact? "").getD ""

/-! ### Documents -/

/-- Whether a key and its value stand on one line: a longer key, or one of several lines, has a
line of its own. -/
def isSimpleKey (s : String) : Bool := s.utf8ByteSize ≤ 128 && !s.toList.any isBreak

/-- The lines of several members or items in a column; the first follows what is already there. -/
def joinEntries (column : Nat) (entries : List String) : String :=
  (blanks column).intercalate entries

mutual

/-- What follows the colon of a key in a column, up to the end of the line. -/
def afterColon (column : Nat) : Document → String
  | .null => " null\n"
  | .bool b => if b then " true\n" else " false\n"
  | .integer n => " " ++ toString n ++ "\n"
  | .float x => " " ++ floatForm x ++ "\n"
  | .text s => " " ++ textLines (column + 2) s
  | .list [] => " []\n"
  | .list (d :: ds) => "\n" ++ blanks column ++ joinEntries column (itemEntries column (d :: ds))
  | .object [] => " \x7b\x7d\n"
  | .object (m :: ms) =>
    "\n" ++ blanks (column + 2) ++ joinEntries (column + 2) (memberEntries (column + 2) (m :: ms))
  | .tagged tag d => " !" ++ tag ++ afterColon column d

/-- What follows the dash of an item in a column, up to the end of the line. -/
def afterDash (column : Nat) : Document → String
  | .null => " null\n"
  | .bool b => if b then " true\n" else " false\n"
  | .integer n => " " ++ toString n ++ "\n"
  | .float x => " " ++ floatForm x ++ "\n"
  | .text s => " " ++ textLines (column + 2) s
  | .list [] => " []\n"
  | .list (d :: ds) => " " ++ joinEntries (column + 2) (itemEntries (column + 2) (d :: ds))
  | .object [] => " \x7b\x7d\n"
  | .object (m :: ms) => " " ++ joinEntries (column + 2) (memberEntries (column + 2) (m :: ms))
  | .tagged tag d => " !" ++ tag ++ afterColon column d

def itemEntries (column : Nat) : List Document → List String
  | [] => []
  | d :: ds => ("-" ++ afterDash column d) :: itemEntries column ds

def memberEntries (column : Nat) : List (String × Document) → List String
  | [] => []
  | (k, d) :: ms =>
    (if isSimpleKey k then textForm (column + 2) k ++ ":" ++ afterColon column d
      else "? " ++ textLines (column + 2) k ++ blanks column ++ ":" ++ afterDash column d)
      :: memberEntries column ms

end

def members (ms : List (String × Document)) : String :=
  if ms.isEmpty then "\x7b\x7d\n" else joinEntries 0 (memberEntries 0 ms)

end Injector.Yaml
