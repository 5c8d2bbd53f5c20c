import ScriptRunner.Document.Basic
import ScriptRunner.Document.Yaml.Token

/-!
# ScriptRunner.Document.Yaml.Node

From the tokens of a YAML text to its document.

The tokens are first read into nodes. A node with an anchor gets a number, and an alias is
the number of the node it stands for. A second node of the same name gets a number that
counts the names so far, which a later new name may get again; the last node of a number
is the one that its aliases stand for. Aliases are put in last (`Node.expand`), so that one
may stand for a node that is written after it or around it.
-/

namespace ScriptRunner.Yaml

/-- A node. -/
inductive Node
  | scalar (style : Style) (tag : Option String) (text : List Char)
  | list (tag : Option String) (items : List Node)
  | map (tag : Option String) (entries : List (Node × Node))
  | alias (number : Nat)

namespace Node

/-- The node that stands where nothing is written. -/
def empty : Node := .scalar .plain none []

end Node

/-! ## Reading nodes -/

/-- The state of reading nodes. -/
structure Composer where
  tokens : List Token
  /-- The handles of tags with what they stand for. -/
  handles : List (List Char × List Char)
  /-- The numbers of anchors. -/
  anchors : List (List Char × Nat)
  /-- The nodes of numbers. -/
  nodes : List (Nat × Node)

/-- A step of reading nodes, which may fail. -/
abbrev Compose := StateT Composer Option

namespace Compose

/-- The next token. After the last one there are only ends. -/
def peek : Compose Token := do
  return (← get).tokens.headD .streamEnd

/-- Leaves the next token behind. -/
def skip : Compose Unit := modify (fun s => { s with tokens := s.tokens.tail })

/-- Leaves the next token behind, which has to be this one. -/
def expect (t : Token) : Compose Unit := do
  if (← peek) = t then skip else failure

/-- The tag that a handle and a suffix stand for. -/
def resolveTag (handle suffix : List Char) : Compose String := do
  if handle.isEmpty then return String.ofList suffix
  else
    match (← get).handles.find? (fun h => h.1 == handle) with
    | some h => return String.ofList (h.2 ++ suffix)
    | none => failure

/-- The anchor and the tag of a node, in either order. -/
def properties : Compose (Option (List Char) × Option String) := do
  match ← peek with
  | .anchor name =>
    skip
    match ← peek with
    | .tag handle suffix =>
      skip
      return (some name, some (← resolveTag handle suffix))
    | _ => return (some name, none)
  | .tag handle suffix =>
    skip
    match ← peek with
    | .anchor name =>
      skip
      return (some name, some (← resolveTag handle suffix))
    | _ => return (none, some (← resolveTag handle suffix))
  | _ => return (none, none)

/-- Gives an anchor its number. -/
def openAnchor (name : List Char) : Compose Nat := do
  let s ← get
  let number := s.anchors.length
  set { s with
    anchors := (name, number) :: s.anchors.filter (fun a => a.1 != name)
    nodes := s.nodes.filter (fun n => n.1 != number) }
  return number

/-- Gives a number its node, unless a node inside it has got the number since. -/
def closeAnchor (number : Nat) (node : Node) : Compose Unit :=
  modify (fun s =>
    if s.nodes.any (fun n => n.1 == number) then s
    else { s with nodes := (number, node) :: s.nodes })

/-- The number that an alias stands for. -/
def aliasNumber (name : List Char) : Compose Nat := do
  match (← get).anchors.find? (fun a => a.1 == name) with
  | some a => return a.2
  | none => failure

/-- Reads a node and gives it to its anchor. -/
def anchored (name : Option (List Char)) (node : Compose Node) : Compose Node := do
  match name with
  | none => node
  | some name =>
    let number ← openAnchor name
    let n ← node
    closeAnchor number n
    return n

/-- Whether the next token is one of these. -/
def atAny (tokens : List Token) : Compose Bool := do
  return tokens.contains (← peek)

mutual

/-- A node. `block` says that blocks may start here, and `bare` that a list may stand
without a block of its own. -/
def node (fuel : Nat) (block bare : Bool) : Compose Node :=
  match fuel with
  | 0 => failure
  | fuel + 1 => do
    match ← peek with
    | .alias name =>
      skip
      return .alias (← aliasNumber name)
    | _ =>
      let (name, tag) ← properties
      anchored name do
        match ← peek with
        | .dash =>
          if bare then return .list tag (← bareList fuel)
          else if name.isSome || tag.isSome then return .scalar .plain tag []
          else failure
        | .scalar style text =>
          skip
          return .scalar style tag text
        | .openList =>
          skip
          return .list tag (← flowList fuel true)
        | .openMap =>
          skip
          return .map tag (← flowMap fuel true)
        | .blockListStart =>
          if block then
            skip
            return .list tag (← blockList fuel)
          else if name.isSome || tag.isSome then return .scalar .plain tag []
          else failure
        | .blockMapStart =>
          if block then
            skip
            return .map tag (← blockMap fuel)
          else if name.isSome || tag.isSome then return .scalar .plain tag []
          else failure
        | _ =>
          if name.isSome || tag.isSome then return .scalar .plain tag []
          else failure

/-- A node, or nothing where one of these tokens comes next. -/
def nodeUnless (fuel : Nat) (block bare : Bool) (stops : List Token) : Compose Node :=
  match fuel with
  | 0 => failure
  | fuel + 1 => do
    if ← atAny stops then return .empty else node fuel block bare

/-- The items of a list with a block of its own. -/
def blockList (fuel : Nat) : Compose (List Node) :=
  match fuel with
  | 0 => failure
  | fuel + 1 => do
    match ← peek with
    | .dash =>
      skip
      let item ← nodeUnless fuel true false [.dash, .blockEnd]
      return item :: (← blockList fuel)
    | .blockEnd =>
      skip
      return []
    | _ => failure

/-- The items of a list without a block of its own. -/
def bareList (fuel : Nat) : Compose (List Node) :=
  match fuel with
  | 0 => failure
  | fuel + 1 => do
    match ← peek with
    | .dash =>
      skip
      let item ← nodeUnless fuel true false [.dash, .key, .value, .blockEnd]
      return item :: (← bareList fuel)
    | _ => return []

/-- The entries of a map with a block of its own. -/
def blockMap (fuel : Nat) : Compose (List (Node × Node)) :=
  match fuel with
  | 0 => failure
  | fuel + 1 => do
    match ← peek with
    | .key =>
      skip
      let k ← nodeUnless fuel true true [.key, .value, .blockEnd]
      let v ←
        if (← peek) = .value then
          skip
          nodeUnless fuel true true [.key, .value, .blockEnd]
        else pure .empty
      return (k, v) :: (← blockMap fuel)
    | .blockEnd =>
      skip
      return []
    | _ => failure

/-- The items of a list between brackets. A key with its value is an item too, a map of its
own; where the key is missing, the token in its place is passed over. -/
def flowList (fuel : Nat) (first : Bool) : Compose (List Node) :=
  match fuel with
  | 0 => failure
  | fuel + 1 => do
    if (← peek) = .closeList then
      skip
      return []
    else
      if first then pure () else expect .comma
      match ← peek with
      | .closeList =>
        skip
        return []
      | .key =>
        skip
        let k ←
          if ← atAny [.value, .comma, .closeList] then
            skip
            pure .empty
          else node fuel false false
        let v ← flowValue fuel [.comma, .closeList]
        return .map none [(k, v)] :: (← flowList fuel false)
      | _ =>
        let item ← node fuel false false
        return item :: (← flowList fuel false)

/-- The value after a key between brackets, if there is one. -/
def flowValue (fuel : Nat) (stops : List Token) : Compose Node :=
  match fuel with
  | 0 => failure
  | fuel + 1 => do
    if (← peek) = .value then
      skip
      nodeUnless fuel false false stops
    else return .empty

/-- The entries of a map between braces. A key may stand without a value. -/
def flowMap (fuel : Nat) (first : Bool) : Compose (List (Node × Node)) :=
  match fuel with
  | 0 => failure
  | fuel + 1 => do
    if (← peek) = .closeMap then
      skip
      return []
    else
      if first then pure () else expect .comma
      match ← peek with
      | .closeMap =>
        skip
        return []
      | .key =>
        skip
        let k ← nodeUnless fuel false false [.value, .comma, .closeMap]
        let v ← flowValue fuel [.comma, .closeMap]
        return (k, v) :: (← flowMap fuel false)
      | _ =>
        let k ← node fuel false false
        return (k, .empty) :: (← flowMap fuel false)

end

/-! ## Documents -/

/-- The handles that are always known. -/
def standardHandles : List (List Char × List Char) :=
  [("!".toList, "!".toList), ("!!".toList, coreTag.toList)]

/-- The directives before a document. At most one may say the version, which has to be one
of the two that are understood, and no handle may be said twice. -/
def directives : Nat → Bool → Compose Unit
  | 0, _ => failure
  | fuel + 1, versioned => do
    match ← peek with
    | .versionDirective major minor =>
      if versioned || major != 1 || !(minor == 1 || minor == 2) then failure
      else
        skip
        directives fuel true
    | .tagDirective handle tag =>
      if (← get).handles.any (fun h => h.1 == handle) then failure
      else
        skip
        modify (fun s => { s with handles := s.handles ++ [(handle, tag)] })
        directives fuel versioned
    | _ => modify (fun s => { s with handles := s.handles ++ standardHandles })

/-- Passes over the marks of the end of a document. -/
def skipDocumentEnds : Nat → Compose Unit
  | 0 => pure ()
  | fuel + 1 => do
    if (← peek) = .documentEnd then
      skip
      skipDocumentEnds fuel
    else pure ()

/-- Whether a token belongs to the start of a document with directives or a mark, or ends
the text. -/
def isDocumentMark : Token → Bool
  | .versionDirective .. | .tagDirective .. | .documentStart | .streamEnd => true
  | _ => false

/-- The one document of a text. Without any document there is no node. -/
def document (fuel : Nat) : Compose (Option Node) := do
  let first ← peek
  if first = .streamEnd then return none
  else
    directives fuel false
    let root ←
      if isDocumentMark first then
        expect .documentStart
        let next ← peek
        if isDocumentMark next || next = .documentEnd then pure .empty else node fuel true false
      else node fuel true false
    skipDocumentEnds fuel
    expect .streamEnd
    return some root

end Compose

/-! ## Aliases -/

namespace Node

mutual

/-- The number of scalars, aliases, and ends of lists and maps. -/
def size : Node → Nat
  | .scalar _ _ _ => 1
  | .alias _ => 1
  | .list _ items => sizeOfItems items + 2
  | .map _ entries => sizeOfEntries entries + 2

/-- The size of several nodes. -/
def sizeOfItems : List Node → Nat
  | [] => 0
  | n :: rest => n.size + sizeOfItems rest

/-- The size of keys and values. -/
def sizeOfEntries : List (Node × Node) → Nat
  | [] => 0
  | (k, v) :: rest => k.size + v.size + sizeOfEntries rest

end

/-- A list or map under its tag: tags of a document's own make it foreign. -/
def underTag (tag : Option String) (d : Document) : Document :=
  match tag with
  | some t => if t.startsWith "!" then .tagged d else d
  | none => d

/-- A document that goes beyond the limits. -/
def beyond : Document := .scalar none .unusable

/-- A walk over several parts, with the number of aliases that may still be put in. -/
def walk {α β : Type} (f : Nat → α → β × Nat) : Nat → List α → List β × Nat
  | budget, [] => ([], budget)
  | budget, a :: rest =>
    let (b, left) := f budget a
    let (bs, final) := walk f left rest
    (b :: bs, final)

/-- The document of a node. `levels` is how deep it may be, and `budget` how many aliases
may be put in; what goes beyond is unusable. Gives also how many aliases may still be
put in afterwards. -/
def expand (nodes : List (Nat × Node)) : Nat → Nat → Node → Document × Nat
  | 0, budget, _ => (beyond, budget)
  | levels + 1, budget, n =>
    match n with
    | .scalar style tag text =>
      (.scalar (some (String.ofList text)) (resolve style tag text), budget)
    | .list tag items =>
      let (ds, left) := walk (expand nodes levels) budget items
      (underTag tag (.list ds), left)
    | .map tag entries =>
      let (ds, left) := walk
        (fun budget (e : Node × Node) =>
          let (k, left) := expand nodes levels budget e.1
          let (v, final) := expand nodes levels left e.2
          ((k, v), final))
        budget entries
      (underTag tag (.map ds), left)
    | .alias number =>
      match budget with
      | 0 => (beyond, 0)
      | left + 1 =>
        match nodes.find? (fun e => e.1 == number) with
        | some e => expand nodes levels left e.2
        | none => (beyond, left)

/-- How deep lists and maps may be nested. -/
def depthLimit : Nat := 128

/-- How many levels a document can need, aliases included, before it is too deep. -/
def levelLimit : Nat := 2 * depthLimit + 4

/-- The document of the outermost node. The parts of a map have a budget each, a hundred
aliases for every part of the text. -/
def toDocument (nodes : List (Nat × Node)) (root : Node) : Document :=
  let budget := 100 * root.size
  match root with
  | .map tag entries =>
    underTag tag (.map (entries.map (fun e =>
      ((expand nodes levelLimit budget e.1).1, (expand nodes levelLimit budget e.2).1))))
  | other => (expand nodes levelLimit budget other).1

end Node

/-- The document of a YAML text. A text without any is nothing at all. -/
def parse? (text : List Char) : Option Document := do
  let tokens ← tokens? text
  let (root, s) ← (Compose.document (4 * tokens.length + 4)).run ⟨tokens, [], [], []⟩
  pure ((root.getD .empty).toDocument s.nodes)

end ScriptRunner.Yaml
