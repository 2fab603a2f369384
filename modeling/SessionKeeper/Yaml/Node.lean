import SessionKeeper.Assoc
import SessionKeeper.Runtime
import SessionKeeper.Yaml.Lexer
import SessionKeeper.Yaml.Scalar

/-!
# YAML nodes

A document is a tree of scalars, sequences and mappings, each with the tag of its
type. An alias stands for the node it names; one that names a node it lies in is
kept as a loop. Tokens are read as they are needed, so what stops the reading of tokens is only
met where nothing in front of it is refused. Reading a tree from tokens takes fuel, of which twice
the number of tokens is always enough, and room for its levels, of which there may be too little.
-/
namespace SessionKeeper.Yaml

/-- A node. A loop says whether the enclosing node it names is a mapping. -/
inductive Node where
  | scalar (tag : Tag) (text : Text)
  | sequence (tag : Tag) (items : List Node)
  | mapping (tag : Tag) (pairs : List (Node × Node))
  | loop (isMapping : Bool)
deriving Inhabited

/-- The scalar that is not there: null. -/
def Node.absent : Node := .scalar (Tag.standard "null") []

/-- What is left to read, the fault behind it, the anchors so far and the handles of tags. -/
structure NodeReader where
  tokens : List Token
  stop : Option Fault
  anchors : Assoc String Node
  handles : Assoc String String

abbrev Reading := StateT NodeReader (Except Fault)

namespace Reading

def refuse {α : Type} : Reading α := throw .grammar

/-- The next token, none at the end. -/
def peek : Reading (Option Token) := do
  let reader ← get
  match reader.tokens, reader.stop with
  | token :: _, _ => return some token
  | [], some fault => throw fault
  | [], none => return none

def drop : Reading Unit := modify fun reader => { reader with tokens := reader.tokens.drop 1 }

/-- Whether the next token is one of these; the end counts as none. -/
def sees (tokens : List Token) : Reading Bool := do
  return (← peek).any fun token => tokens.contains token

/-- Drops the next token if it is this one. -/
def accepts (token : Token) : Reading Bool := do
  if ← sees [token] then
    drop
    return true
  else return false

def name (anchor : Option String) (node : Node) : Reading Unit :=
  match anchor with
  | some anchor => modify fun reader => { reader with anchors := reader.anchors.put anchor node }
  | none => pure ()

def resolveTag (written : WrittenTag) : Reading Tag := do
  match written.handle with
  | none => return written.suffix
  | some handle =>
    match (← get).handles.value? handle with
    | some start => return start ++ written.suffix
    | none => refuse

def anchor? : Reading (Option String) := do
  match ← peek with
  | some (.anchor anchor) =>
    drop
    return some anchor
  | _ => return none

def tag? : Reading (Option WrittenTag) := do
  match ← peek with
  | some (.tag written) =>
    drop
    return some written
  | _ => return none

/-- The properties in front of a node: an anchor and a tag in either order. -/
def properties : Reading (Option String × Option Tag) := do
  let anchor ← anchor?
  let written ← tag?
  let anchor ← if anchor.isNone && written.isSome then anchor? else pure anchor
  match written with
  | some written => return (anchor, some (← resolveTag written))
  | none => return (anchor, none)

/-- A tag, unless it is the one that asks for the type to be found. -/
def given? (tag : Option Tag) : Option Tag := tag.filter (· ≠ "!")

/-- The room that is left inside a collection. -/
def descend : (room : Nat) → Reading Nat
  | 0 => throw .tooDeep
  | room + 1 => return room

def named (anchor : Option String) (node : Node) : Reading Node := do
  name anchor node
  return node

mutual

/-- Reads a node. `inBlock` allows block collections, `flat` a block sequence that is not
indented. -/
def node : (room fuel : Nat) → (inBlock flat : Bool) → Reading Node
  | _, 0, _, _ => refuse
  | room, fuel + 1, inBlock, flat => do
    match ← peek with
    | some (.alias anchor) =>
      drop
      match (← get).anchors.value? anchor with
      | some node => return node
      | none => refuse
    | _ =>
      let (anchor, tag) ← properties
      let next ← peek
      let known := (← get).anchors
      if anchor.any known.has then refuse
      let listTag := (given? tag).getD Tag.list
      let mapTag := (given? tag).getD Tag.map
      match next with
      | some .blockEntry =>
        if flat then
          let room ← descend room
          name anchor (.loop false)
          named anchor (.sequence listTag (← flatItems room fuel))
        else empty anchor tag
      | some (.scalar text plain) =>
        drop
        let found := if plain || tag = some "!" then Tag.ofPlain text else Tag.text
        named anchor (.scalar ((given? tag).getD found) text)
      | some .flowSequenceStart =>
        let room ← descend room
        drop
        name anchor (.loop false)
        named anchor (.sequence listTag (← flowItems room fuel true))
      | some .flowMappingStart =>
        let room ← descend room
        drop
        name anchor (.loop true)
        named anchor (.mapping mapTag (← flowPairs room fuel true))
      | some .blockSequenceStart =>
        if inBlock then
          let room ← descend room
          drop
          name anchor (.loop false)
          named anchor (.sequence listTag (← blockItems room fuel))
        else empty anchor tag
      | some .blockMappingStart =>
        if inBlock then
          let room ← descend room
          drop
          name anchor (.loop true)
          named anchor (.mapping mapTag (← blockPairs room fuel))
        else empty anchor tag
      | _ => empty anchor tag

/-- The empty scalar that properties without a node stand for. -/
def empty (anchor : Option String) (tag : Option Tag) : Reading Node :=
  if anchor.isNone && tag.isNone then refuse
  else named anchor (.scalar ((given? tag).getD (Tag.standard "null")) [])

/-- Reads a node, unless one of these tokens shows that there is none. -/
def nodeUnless : (room fuel : Nat) → (ends : List Token) → (inBlock flat : Bool) → Reading Node
  | _, 0, _, _, _ => refuse
  | room, fuel + 1, ends, inBlock, flat => do
    if ← sees ends then return .absent else node room fuel inBlock flat

def blockItems : (room fuel : Nat) → Reading (List Node)
  | _, 0 => refuse
  | room, fuel + 1 => do
    if ← accepts .blockEntry then
      let item ← nodeUnless room fuel [.blockEntry, .blockEnd] true false
      return item :: (← blockItems room fuel)
    else if ← accepts .blockEnd then return []
    else refuse

/-- Reads the entries of a block sequence that is not indented. -/
def flatItems : (room fuel : Nat) → Reading (List Node)
  | _, 0 => refuse
  | room, fuel + 1 => do
    if ← accepts .blockEntry then
      let item ← nodeUnless room fuel [.blockEntry, .key, .value, .blockEnd] true false
      return item :: (← flatItems room fuel)
    else return []

def blockPairs : (room fuel : Nat) → Reading (List (Node × Node))
  | _, 0 => refuse
  | room, fuel + 1 => do
    if ← accepts .key then
      let key ← nodeUnless room fuel [.key, .value, .blockEnd] true true
      let value ← valueNode room fuel [.key, .value, .blockEnd] true
      return (key, value) :: (← blockPairs room fuel)
    else if ← accepts .blockEnd then return []
    else refuse

/-- Reads the value behind a key, if there is one. -/
def valueNode : (room fuel : Nat) → (ends : List Token) → (inBlock : Bool) → Reading Node
  | _, 0, _, _ => refuse
  | room, fuel + 1, ends, inBlock => do
    if ← accepts .value then nodeUnless room fuel ends inBlock inBlock else return .absent

/-- Reads the comma in front of all but the first entry of a flow collection. -/
def flowSeparator (first : Bool) : Reading Unit := do
  if first then pure ()
  else if ← accepts .flowEntry then pure ()
  else refuse

/-- Reads the entries of a flow sequence; one may be a single pair. -/
def flowItems : (room fuel : Nat) → (first : Bool) → Reading (List Node)
  | _, 0, _ => refuse
  | room, fuel + 1, first => do
    if ← accepts .flowSequenceEnd then return []
    else
      flowSeparator first
      if ← accepts .key then
        let inner ← descend room
        let key ← nodeUnless inner fuel [.value, .flowEntry, .flowSequenceEnd] false false
        let value ← valueNode inner fuel [.flowEntry, .flowSequenceEnd] false
        return .mapping Tag.map [(key, value)] :: (← flowItems room fuel false)
      else if ← accepts .flowSequenceEnd then return []
      else
        let item ← node room fuel false false
        return item :: (← flowItems room fuel false)

def flowPairs : (room fuel : Nat) → (first : Bool) → Reading (List (Node × Node))
  | _, 0, _ => refuse
  | room, fuel + 1, first => do
    if ← accepts .flowMappingEnd then return []
    else
      flowSeparator first
      if ← accepts .key then
        let key ← nodeUnless room fuel [.value, .flowEntry, .flowMappingEnd] false false
        let value ← valueNode room fuel [.flowEntry, .flowMappingEnd] false
        return (key, value) :: (← flowPairs room fuel false)
      else if ← accepts .flowMappingEnd then return []
      else
        let key ← node room fuel false false
        return (key, .absent) :: (← flowPairs room fuel false)

end

/-- The handles that every document knows. -/
def standardHandles : Assoc String String := [("!", "!"), ("!!", Tag.standard "")]

/-- Reads the directives in front of a document: at most one version, which has to be 1, and
one meaning for each handle. -/
def directives : (fuel : Nat) → (versioned : Bool) → (handles : Assoc String String) →
    Reading (Assoc String String)
  | 0, _, _ => refuse
  | fuel + 1, versioned, handles => do
    match ← peek with
    | some (.version major _) =>
      drop
      if versioned || major ≠ 1 then refuse else directives fuel true handles
    | some (.tagHandle handle start) =>
      drop
      if handles.has handle then refuse else directives fuel versioned (handles.put handle start)
    | some .otherDirective =>
      drop
      directives fuel versioned handles
    | _ => return handles

/-- Whether the next token is a directive. -/
def seesDirective : Reading Bool := do
  match ← peek with
  | some (.version ..) => return true
  | some (.tagHandle ..) => return true
  | some .otherDirective => return true
  | _ => return false

/-- Drops markers of the end of a document. Whatever else follows is refused, once the directives
of what would be another document have been read. -/
def documentEnds : (fuel : Nat) → Reading Unit
  | 0 => refuse
  | fuel + 1 => do
    if ← accepts .documentEnd then documentEnds fuel
    else if (← peek).isNone then pure ()
    else
      let _ ← directives fuel false []
      refuse

/-- Reads the only document of a text; an empty text has none. -/
def document [Runtime] (fuel : Nat) : Reading (Option Node) := do
  if (← peek).isNone then return none
  else
    let isExplicit := (← seesDirective) || (← sees [.documentStart])
    let root ←
      if isExplicit then
        let own ← directives fuel false []
        let handles := standardHandles.foldl
          (fun handles (handle, start) =>
            if handles.has handle then handles else handles.put handle start) own
        modify fun reader => { reader with handles }
        if ← accepts .documentStart then
          if (← seesDirective) || (← sees [.documentStart, .documentEnd]) || (← peek).isNone then
            pure Node.absent
          else node Runtime.composes fuel true false
        else refuse
      else node Runtime.composes fuel true false
    documentEnds fuel
    return some root

end Reading

/-- The tree of a text, none for an empty one. -/
def Node.ofText? [Runtime] (text : List Char) : Except Fault (Option Node) := do
  let stream := tokens text
  let reader : NodeReader := ⟨stream.tokens, stream.stop, [], Reading.standardHandles⟩
  return (← (Reading.document (3 * stream.tokens.length + 10)).run reader).1

end SessionKeeper.Yaml
