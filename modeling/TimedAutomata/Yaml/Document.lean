import TimedAutomata.Yaml.Node

/-!
# Documents

A document is a node and what its aliases stand for. Names of anchors may be used again, so each
anchor becomes a number when it is read. An alias takes the number that its name has at that time,
but the node behind the number is looked up only when the whole document is known.

- `Document`: a node with the nodes that aliases can stand for
- `Document.ofTokens?`: the document in a list of tokens, by recursive descent. `Node.absent`
  stands for a stream without a document.
- `Document.read?`: the document in a text
-/

namespace TimedAutomata
namespace Yaml

structure Document where
  root : Node
  /-- The nodes with anchors, the latest first. -/
  anchors : List (Nat × Node)
  deriving Inhabited

namespace Document

open Node (empty)

def ofRoot (root : Node) : Document :=
  ⟨root, root.anchored.reverse⟩

/-- The node that an alias stands for: the last of those with its number. -/
def target? (d : Document) (anchor : Nat) : Option Node :=
  d.anchors.lookup anchor

/-! ## The state of reading -/

structure Reader where
  tokens : List Token
  /-- The meaning of tag handles. -/
  handles : List (String × Tag)
  /-- The numbers of the anchors, by name. -/
  names : List (String × Nat)
  deriving Inhabited

/-- A reader fails, or yields a value and the tokens that are left. -/
abbrev Read := StateT Reader Option

def peek : Read Token := do
  match (← get).tokens with
  | t :: _ => return t
  | [] => return .streamEnd

def next : Read Unit :=
  modify fun r => { r with tokens := r.tokens.drop 1 }

def refuse {α : Type} : Read α := fun _ => none

/-- The bytes of a whole tag. -/
def resolveTag (handle : String) (suffix : Tag) : Read Tag := do
  if handle.isEmpty then return suffix
  match (← get).handles.lookup handle with
  | some stem => return stem ++ suffix
  | none => refuse

/-- Gives a number to an anchor: how many names there are so far. A name that is used again takes
a new number, which the next new name then shares. -/
def declareAnchor (name : String) : Read Nat := do
  let r ← get
  let number := r.names.length
  set { r with names := (name, number) :: r.names.filter fun n => n.1 != name }
  return number

/-- An anchor and a tag in front of a node, in either order. -/
def properties : Read Properties := do
  match ← peek with
  | .anchor name =>
    next
    let anchor ← declareAnchor name
    match ← peek with
    | .tag handle suffix => next; return ⟨some anchor, some (← resolveTag handle suffix)⟩
    | _ => return ⟨some anchor, none⟩
  | .tag handle suffix =>
    next
    let tag ← resolveTag handle suffix
    match ← peek with
    | .anchor name => next; return ⟨some (← declareAnchor name), some tag⟩
    | _ => return ⟨none, some tag⟩
  | _ => return .none

/-! ## Nodes -/

mutual

/-- A node. Block collections only with `block`; with `indentless`, entries of a sequence may
stand at the column of the mapping around them. -/
def node (block indentless : Bool) : (fuel : Nat) → Read Node
  | 0 => refuse
  | fuel + 1 => do
    if let .alias name ← peek then
      next
      match (← get).names.lookup name with
      | some number => return .alias number
      | none => refuse
    else
      let p ← properties
      match ← peek with
      | .blockEntry =>
        if indentless then return .sequence p (← indentlessItems fuel) else bare p
      | .scalar style text => next; return .scalar p style text
      | .flowSequenceStart => next; return .sequence p (← flowItems true fuel)
      | .flowMappingStart => next; return .mapping p (← flowEntries true fuel)
      | .blockSequenceStart =>
        if block then do next; return .sequence p (← blockItems fuel) else bare p
      | .blockMappingStart =>
        if block then do next; return .mapping p (← blockEntries fuel) else bare p
      | _ => bare p
where
  /-- Nothing but an anchor or a tag. -/
  bare (p : Properties) : Read Node :=
    if p.isNone then refuse else return .scalar p .plain ""

/-- The items of a block sequence. -/
def blockItems : (fuel : Nat) → Read (List Node)
  | 0 => refuse
  | fuel + 1 => do
    match ← peek with
    | .blockEntry =>
      next
      let item ← match ← peek with
        | .blockEntry | .blockEnd => pure empty
        | _ => node true false fuel
      return item :: (← blockItems fuel)
    | .blockEnd => next; return []
    | _ => refuse

/-- The items of a sequence at the column of the mapping around it. -/
def indentlessItems : (fuel : Nat) → Read (List Node)
  | 0 => refuse
  | fuel + 1 => do
    match ← peek with
    | .blockEntry =>
      next
      let item ← match ← peek with
        | .blockEntry | .key | .value | .blockEnd => pure empty
        | _ => node true false fuel
      return item :: (← indentlessItems fuel)
    | _ => return []

/-- A key or a value of a block mapping, behind its indicator. -/
def blockSide : (fuel : Nat) → Read Node
  | 0 => refuse
  | fuel + 1 => do
    match ← peek with
    | .key | .value | .blockEnd => return empty
    | _ => node true true fuel

/-- The entries of a block mapping. -/
def blockEntries : (fuel : Nat) → Read (List (Node × Node))
  | 0 => refuse
  | fuel + 1 => do
    match ← peek with
    | .key =>
      next
      let key ← blockSide fuel
      let value ← match ← peek with
        | .value => next; blockSide fuel
        | _ => pure empty
      return (key, value) :: (← blockEntries fuel)
    | .blockEnd => next; return []
    | _ => refuse

/-- The items of a flow sequence. An entry with a key is a mapping of its own. -/
def flowItems (first : Bool) : (fuel : Nat) → Read (List Node)
  | 0 => refuse
  | fuel + 1 => do
    if let .flowSequenceEnd ← peek then
      next
      return []
    unless first do
      match ← peek with
      | .flowEntry => next
      | _ => refuse
    match ← peek with
    | .flowSequenceEnd => next; return []
    | .key =>
      next
      let item ← flowPair fuel
      return item :: (← flowItems false fuel)
    | _ =>
      let item ← node false false fuel
      return item :: (← flowItems false fuel)

/-- An entry of a flow sequence that is a single key with its value. -/
def flowPair : (fuel : Nat) → Read Node
  | 0 => refuse
  | fuel + 1 => do
    let key ← match ← peek with
      | .value | .flowEntry | .flowSequenceEnd => next; pure empty
      | _ => node false false fuel
    let value ← match ← peek with
      | .value =>
        next
        match ← peek with
        | .flowEntry | .flowSequenceEnd => pure empty
        | _ => node false false fuel
      | _ => pure empty
    return .mapping .none [(key, value)]

/-- The entries of a flow mapping. -/
def flowEntries (first : Bool) : (fuel : Nat) → Read (List (Node × Node))
  | 0 => refuse
  | fuel + 1 => do
    if let .flowMappingEnd ← peek then
      next
      return []
    unless first do
      match ← peek with
      | .flowEntry => next
      | _ => refuse
    match ← peek with
    | .flowMappingEnd => next; return []
    | .key =>
      next
      let key ← match ← peek with
        | .value | .flowEntry | .flowMappingEnd => pure empty
        | _ => node false false fuel
      let value ← match ← peek with
        | .value =>
          next
          match ← peek with
          | .flowEntry | .flowMappingEnd => pure empty
          | _ => node false false fuel
        | _ => pure empty
      return (key, value) :: (← flowEntries false fuel)
    | _ =>
      let key ← node false false fuel
      return (key, empty) :: (← flowEntries false fuel)

end

/-! ## Documents -/

/-- In front of the tags of the types that every document knows. -/
def coreStem : Tag := tagOf "tag:yaml.org,2002:".toList

def defaultHandles : List (String × Tag) :=
  [("!", tagOf ['!']), ("!!", coreStem)]

/-- The directives before a document: at most one version, which must be 1.1 or 1.2, and tag
handles, each at most once. -/
def directives : (fuel : Nat) → (version : Bool) → (handles : List (String × Tag)) →
    Read (List (String × Tag))
  | 0, _, _ => refuse
  | fuel + 1, version, handles => do
    match ← peek with
    | .version major minor =>
      if version || major != 1 || !(minor == 1 || minor == 2) then refuse
      next
      directives fuel true handles
    | .tagDirective handle stem =>
      if (handles.lookup handle).isSome then refuse
      next
      directives fuel version (handles ++ [(handle, stem)])
    | _ => return handles

/-- The document of a stream that has one at most, up to the end of the stream. -/
def document (fuel : Nat) : Read Node := do
  let root ← match ← peek with
    | .streamEnd => pure .absent
    | .version .. | .tagDirective .. | .documentStart =>
      let handles ← directives fuel false []
      modify fun r => { r with handles := handles ++ defaultHandles }
      match ← peek with
      | .documentStart =>
        next
        match ← peek with
        | .version .. | .tagDirective .. | .documentStart | .documentEnd | .streamEnd =>
          pure empty
        | _ => node true false fuel
      | _ => refuse
    | _ => node true false fuel
  modify fun r => { r with tokens := r.tokens.dropWhile (· = .documentEnd) }
  match ← peek with
  | .streamEnd => return root
  | _ => refuse

/-- The document in a list of tokens. -/
def ofTokens? (tokens : List Token) : Option Document := do
  let (root, _) ← (document (4 * (tokens.length + 1))).run ⟨tokens, defaultHandles, []⟩
  return .ofRoot root

/-- The document in a text. -/
def read? (text : String) : Option Document := do
  ofTokens? (← tokens? text.toList)

end Document
end Yaml
end TimedAutomata
