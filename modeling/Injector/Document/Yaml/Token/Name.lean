import Injector.Document.Yaml.Token.Scalar

/-!
# Names in YAML

Anchors, tags and directives: from the sign where one begins, what it says and the place after it.
-/

namespace Injector.Yaml

/-- The name at a place, which may be empty, and the place after it. -/
def Cursor.takeName (c : Cursor) : String × Cursor :=
  let name := c.rest.takeWhile isNameChar
  (String.ofList name, c.advance name.length)

/-! ### Anchors -/

def endsName (cs : List Char) : Bool :=
  startsBlank cs
    || cs.head?.any fun c => ['?', ':', ',', ']', '\x7d', '%', '@', '\x60'].contains c

/-- The name of an anchor, from the sign before it on. -/
def anchorName? (c : Cursor) : Option (String × Cursor) :=
  let (name, c) := (c.advance 1).takeName
  if name.isEmpty || !endsName c.rest then none else some (name, c)

/-! ### Addresses -/

/-- Whether a character may stand in an address; a wide one may hold those that part entries. -/
def isAddressChar (wide : Bool) (c : Char) : Bool :=
  isNameChar c
    || [';', '/', '?', ':', '@', '&', '=', '+', '$', '.', '!', '~', '*', '\'', '(', ')'].contains c
    || (wide && [',', '[', ']'].contains c)

/-- The octet that is escaped at the front, and what follows. -/
def octet? : List Char → Option (Nat × List Char)
  | '%' :: a :: b :: rest => do
    return ((← Json.hexDigit? a) * 16 + (← Json.hexDigit? b), rest)
  | _ => none

/-- The bits of a character after those in `n`, from so many more octets. -/
def laterOctets? : (count : Nat) → (n : Nat) → List Char → Option Nat
  | 0, n, _ => some n
  | count + 1, n, cs => do
    let (octet, cs) ← octet? cs
    if 0x80 ≤ octet ∧ octet < 0xc0 then laterOctets? count (n * 64 + (octet - 0x80)) cs else none

/-- The character whose octets are escaped at the front, and how many they are. -/
def escapedChar? (cs : List Char) : Option (Char × Nat) := do
  let (octet, cs) ← octet? cs
  let (count, bits) ←
    if octet < 0x80 then some (1, octet)
    else if octet < 0xc0 then none
    else if octet < 0xe0 then some (2, octet - 0xc0)
    else if octet < 0xf0 then some (3, octet - 0xe0)
    else if octet < 0xf8 then some (4, octet - 0xf0)
    else none
  return (← codePoint? (← laterOctets? (count - 1) bits cs), count)

/-- The address at a place after the characters in `seen`, which are in reverse. -/
def addressRest? (wide : Bool) : (fuel : Nat) → (seen : List Char) → Cursor →
    Option (String × Cursor)
  | 0, _, _ => none
  | fuel + 1, seen, c =>
    match c.rest with
    | [] => some (String.ofList seen.reverse, c)
    | a :: _ =>
      if a = '%' then do
        let (b, octets) ← escapedChar? c.rest
        addressRest? wide fuel (b :: seen) (c.advance (3 * octets))
      else if isAddressChar wide a then addressRest? wide fuel (a :: seen) (c.advance 1)
      else some (String.ofList seen.reverse, c)

/-- The address at a place, which may be empty. -/
def address? (wide : Bool) (c : Cursor) : Option (String × Cursor) :=
  addressRest? wide (c.size + 1) [] c

/-! ### Tags -/

/-- The name at a tag's sign, whether another sign after it makes it a handle, and the place after
that. -/
def takeHandle (c : Cursor) : String × Bool × Cursor :=
  let (name, c) := (c.advance 1).takeName
  if c.rest.head? = some '!' then (name, true, c.advance 1) else (name, false, c)

/-- The tag at its sign: an address between angle brackets, a handle with an address, an address
alone, or nothing but the sign. -/
def tag? (flow : Bool) (c : Cursor) : Option (Token × Cursor) := do
  let (tag, c) ←
    if (c.rest.drop 1).head? = some '<' then do
      let (address, c) ← address? true (c.advance 2)
      if address.isEmpty || c.rest.head? ≠ some '>' then none
      else some (Token.tag "" address, c.advance 1)
    else do
      let (name, isHandle, c) := takeHandle c
      let (address, c) ← address? false c
      if isHandle then
        if address.isEmpty then none else some (Token.tag ("!" ++ name ++ "!") address, c)
      else if (name ++ address).isEmpty then some (Token.tag "" "!", c)
      else some (Token.tag "!" (name ++ address), c)
  if startsBlank c.rest || (flow && c.rest.head? = some ',') then return (tag, c) else none

/-! ### Directives -/

def shortNumber? (c : Cursor) : Option (Nat × Cursor) :=
  let (ds, _) := Json.takeDigits c.rest
  if ds.isEmpty || ds.length > 9 then none
  else some (ds.foldl (fun n d => n * 10 + d) 0, c.advance ds.length)

/-- The version that a directive names; there are two. -/
def version? (c : Cursor) : Option (Token × Cursor) := do
  let (major, c) ← shortNumber? c
  if c.rest.head? ≠ some '.' then none
  else
    let (minor, c) ← shortNumber? (c.advance 1)
    if major = 1 && (minor = 1 || minor = 2) then return (.version, c) else none

/-- The handle that a directive declares, and what it stands for. -/
def handleMeaning? (c : Cursor) : Option (Token × Cursor) := do
  if c.rest.head? ≠ some '!' then none
  else
    let (name, isHandle, c) := takeHandle c
    if (!isHandle && !name.isEmpty) || !c.rest.head?.any isBlank then none
    else
      let (address, c) ← address? true (c.skipWhile isBlank)
      if address.isEmpty || !startsBlank c.rest then none
      else return (.tagHandle ("!" ++ name ++ if isHandle then "!" else "") address, c)

/-- The directive at its sign, up to the end of the line. -/
def directive? (c : Cursor) : Option (Token × Cursor) := do
  let (name, c) := (c.advance 1).takeName
  if !startsBlank c.rest then none
  else
    let c := c.skipWhile isBlank
    let (token, c) ←
      match name with
      | "YAML" => version? c
      | "TAG" => handleMeaning? c
      | _ => none
    return (token, ← c.skipLine?)

end Injector.Yaml
