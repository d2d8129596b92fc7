import Injector.Document.Yaml.Layout

/-!
# Trees of YAML

What the tokens of a text are put together to: scalars, sequences and mappings, each with an
anchor and a tag if it has them, and other occurrences of what has an anchor. A part that is not
written where there could be one is an empty scalar.
-/

namespace Injector.Yaml

/-- What is written in front of a part. -/
structure Properties (α : Type) where
  anchor : Option α := none
  tag : Option String := none

/-- A part of a document, with anchors of a type. -/
inductive Tree (α : Type)
  /-- What has an anchor, once again. -/
  | again (anchor : α)
  | scalar (properties : Properties α) (style : Style) (text : String)
  | sequence (properties : Properties α) (items : List (Tree α))
  /-- A mapping; any part may be a key. -/
  | mapping (properties : Properties α) (members : List (Tree α × Tree α))

def Tree.absent {α : Type} : Tree α := .scalar {} .plain ""

/-! ### Nodes -/

/-- The properties at the front, in either order, and what follows. -/
def takeProperties : List Token → Properties String × List Token
  | .anchor a :: .tag _ t :: ts => ({ anchor := a, tag := t }, ts)
  | .tag _ t :: .anchor a :: ts => ({ anchor := a, tag := t }, ts)
  | .anchor a :: ts => ({ anchor := a }, ts)
  | .tag _ t :: ts => ({ tag := t }, ts)
  | ts => ({}, ts)

/-- The properties of a written scalar, where the sign of a tag alone is none. -/
def Properties.ofScalar {α : Type} (p : Properties α) : Properties α :=
  if p.tag = some "!" then { p with tag := none } else p

/-- The tokens after the one between two items of a flow collection; the first item has none. -/
def afterComma? : (first : Bool) → List Token → Option (List Token)
  | true, ts => some ts
  | false, .comma :: ts => some ts
  | false, _ => none

mutual

/-- The node at the front, in a block or a flow collection; its items may stand in the column of
the key before it if `indentless` allows. -/
def node? (block indentless : Bool) : (fuel : Nat) → List Token →
    Option (Tree String × List Token)
  | 0, _ => none
  | fuel + 1, ts =>
    let (p, rest) := takeProperties ts
    let empty := if p.anchor.isNone && p.tag.isNone then none else some (.scalar p .plain "", rest)
    match rest with
    | .again name :: rest =>
      if p.anchor.isNone && p.tag.isNone then some (.again name, rest) else empty
    | .scalar style text :: rest => some (.scalar p.ofScalar style text, rest)
    | .flowSequence :: rest => do
      let (items, rest) ← flowItems? true fuel rest
      return (.sequence p items, rest)
    | .flowMapping :: rest => do
      let (members, rest) ← flowMembers? true fuel rest
      return (.mapping p members, rest)
    | .blockSequence :: rest =>
      if block then do
        let (items, rest) ← blockItems? fuel rest
        return (.sequence p items, rest)
      else empty
    | .blockMapping :: rest =>
      if block then do
        let (members, rest) ← blockMembers? fuel rest
        return (.mapping p members, rest)
      else empty
    | .entry :: _ =>
      if indentless then do
        let (items, rest) ← indentlessItems? fuel rest
        return (.sequence p items, rest)
      else empty
    | _ => empty

/-- The node at the front, or nothing before one of some tokens. -/
def nodeBefore? (ends : List Token) (block indentless : Bool) : (fuel : Nat) → List Token →
    Option (Tree String × List Token)
  | 0, _ => none
  | fuel + 1, ts =>
    if ts.head?.any ends.contains then some (.absent, ts) else node? block indentless fuel ts

def blockItems? : (fuel : Nat) → List Token → Option (List (Tree String) × List Token)
  | 0, _ => none
  | _ + 1, .blockEnd :: ts => some ([], ts)
  | fuel + 1, .entry :: ts => do
    let (t, ts) ← nodeBefore? [.entry, .blockEnd] true false fuel ts
    let (items, ts) ← blockItems? fuel ts
    return (t :: items, ts)
  | _ + 1, _ => none

/-- The items of a block sequence in the column of the key before it. -/
def indentlessItems? : (fuel : Nat) → List Token → Option (List (Tree String) × List Token)
  | 0, _ => none
  | fuel + 1, .entry :: ts => do
    let (t, ts) ← nodeBefore? [.entry, .key, .value, .blockEnd] true false fuel ts
    let (items, ts) ← indentlessItems? fuel ts
    return (t :: items, ts)
  | _ + 1, ts => some ([], ts)

def blockMembers? : (fuel : Nat) → List Token →
    Option (List (Tree String × Tree String) × List Token)
  | 0, _ => none
  | _ + 1, .blockEnd :: ts => some ([], ts)
  | fuel + 1, .key :: ts => do
    let (key, ts) ← nodeBefore? [.key, .value, .blockEnd] true true fuel ts
    let (value, ts) ←
      match ts with
      | .value :: ts => nodeBefore? [.key, .value, .blockEnd] true true fuel ts
      | _ => some (.absent, ts)
    let (members, ts) ← blockMembers? fuel ts
    return ((key, value) :: members, ts)
  | _ + 1, _ => none

/-- The items of a flow sequence up to its end. An item with a key is a mapping of one member. -/
def flowItems? (first : Bool) : (fuel : Nat) → List Token →
    Option (List (Tree String) × List Token)
  | 0, _ => none
  | _ + 1, .flowSequenceEnd :: ts => some ([], ts)
  | fuel + 1, ts => do
    match ← afterComma? first ts with
    | .flowSequenceEnd :: ts => return ([], ts)
    | .key :: ts =>
      let (key, ts) ←
        match ts with
        | .value :: ts | .comma :: ts | .flowSequenceEnd :: ts => some (.absent, ts)
        | _ => node? false false fuel ts
      let (value, ts) ←
        match ts with
        | .value :: ts => nodeBefore? [.comma, .flowSequenceEnd] false false fuel ts
        | _ => some (.absent, ts)
      let (items, ts) ← flowItems? false fuel ts
      return (.mapping {} [(key, value)] :: items, ts)
    | ts =>
      let (t, ts) ← node? false false fuel ts
      let (items, ts) ← flowItems? false fuel ts
      return (t :: items, ts)

/-- The members of a flow mapping up to its end. What has no key before it is one itself. -/
def flowMembers? (first : Bool) : (fuel : Nat) → List Token →
    Option (List (Tree String × Tree String) × List Token)
  | 0, _ => none
  | _ + 1, .flowMappingEnd :: ts => some ([], ts)
  | fuel + 1, ts => do
    match ← afterComma? first ts with
    | .flowMappingEnd :: ts => return ([], ts)
    | .key :: ts =>
      let (key, ts) ← nodeBefore? [.value, .comma, .flowMappingEnd] false false fuel ts
      let (value, ts) ←
        match ts with
        | .value :: ts => nodeBefore? [.comma, .flowMappingEnd] false false fuel ts
        | _ => some (.absent, ts)
      let (members, ts) ← flowMembers? false fuel ts
      return ((key, value) :: members, ts)
    | ts =>
      let (key, ts) ← node? false false fuel ts
      let (members, ts) ← flowMembers? false fuel ts
      return ((key, .absent) :: members, ts)

end

/-! ### Documents -/

def commonHandles : List (String × String) := [("!", "!"), ("!!", "tag:yaml.org,2002:")]

/-- The token in which a tag is written out, with no handle; an unknown handle is refused. -/
def Token.written? (handles : List (String × String)) : Token → Option Token
  | .tag handle rest =>
    if handle.isEmpty then some (.tag "" rest)
    else ((handles ++ commonHandles).lookup handle).map fun meaning => .tag "" (meaning ++ rest)
  | t => some t

/-- The handles that directives declare, and what follows. No directive is given twice. -/
def takeDirectives? : (hasVersion : Bool) → (handles : List (String × String)) → List Token →
    Option (List (String × String) × List Token)
  | hasVersion, handles, .version :: ts =>
    if hasVersion then none else takeDirectives? true handles ts
  | hasVersion, handles, .tagHandle handle meaning :: ts =>
    if (handles.lookup handle).isSome then none
    else takeDirectives? hasVersion (handles ++ [(handle, meaning)]) ts
  | _, handles, ts => some (handles, ts)

/-- The content of a document and what follows it. Without directives the start of the document
need not be marked. -/
def takeContent? (ts : List Token) : Option (Tree String × List Token) := do
  let (handles, rest) ← takeDirectives? false [] ts
  let rest ← rest.mapM (Token.written? handles)
  let fuel := 4 * rest.length + 4
  match rest with
  | .documentStart :: rest =>
    if rest.isEmpty then return (.absent, rest)
    else nodeBefore? [.documentEnd] true false fuel rest
  | _ => if rest.length = ts.length then node? true false fuel rest else none

/-- The one document of some tokens; there is none without any. -/
def Tree.ofTokens? : List Token → Option (Option (Tree String))
  | [] => some none
  | ts => do
    let (t, rest) ← takeContent? ts
    if rest.all (· = .documentEnd) then return some t else none

end Injector.Yaml
