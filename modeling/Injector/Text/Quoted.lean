import Injector.Text.Printable

/-!
# Quoted texts

A text between double quotes. Backslash, quote, tab, line feed, carriage return and the null
character have escapes of their own; whatever else does not print by itself, or extends the
character before it, is written by its code point in braces.
-/

namespace Injector

def codePointEscape (c : Char) : List Char :=
  ['\\', 'u', '\x7b'] ++ Nat.toDigits 16 c.toNat ++ ['\x7d']

def escapeChar (c : Char) : List Char :=
  if c = '\x00' then ['\\', '0']
  else if c = '\t' then ['\\', 't']
  else if c = '\n' then ['\\', 'n']
  else if c = '\r' then ['\\', 'r']
  else if c = '"' then ['\\', '"']
  else if c = '\\' then ['\\', '\\']
  else if isExtender c || !isPrintable c then codePointEscape c
  else [c]

def escapeChars (cs : List Char) : List Char := cs.flatMap escapeChar

def quoted (s : String) : String :=
  String.ofList ('"' :: escapeChars s.toList ++ ['"'])

end Injector
