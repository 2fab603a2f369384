import SessionKeeper.Yaml.Node

/-!
# YAML documents

What a document stands for, as far as settings need it: nothing, a mapping whose
text keys are known, or something else. Every scalar in the tree has to spell a value
of its type, every key has to be one that mappings can have, and merged mappings are
written out. Nodes are checked level by level, as deep ones are read last.
-/
namespace SessionKeeper.Yaml

/-- What a document stands for. -/
inductive Document where
  | empty
  | mapping (entries : Assoc Text Value)
  | other
deriving DecidableEq, Repr

/-- The collections that nodes can stand for. -/
inductive Shape where
  | list
  | map
  | set
  | pairs
deriving DecidableEq, Repr

namespace Node

mutual

/-- The number of nodes in a tree. -/
def size : Node → Nat
  | .scalar .. => 1
  | .sequence _ items => 1 + sizes items
  | .mapping _ pairs => 1 + pairSizes pairs
  | .loop _ => 1

/-- The number of nodes in trees. -/
def sizes : List Node → Nat
  | [] => 0
  | item :: rest => size item + sizes rest

def pairSizes : List (Node × Node) → Nat
  | [] => 0
  | (key, value) :: rest => size key + size value + pairSizes rest

end

def tag : Node → Tag
  | .scalar tag _ => tag
  | .sequence tag _ => tag
  | .mapping tag _ => tag
  | .loop isMapping => if isMapping then Tag.map else Tag.list

/-- The pairs that a value merges into a mapping, before merging in them in turn. -/
def mergedPairs : Node → Except Fault (List (List (Node × Node)))
  | .mapping _ pairs => .ok [pairs]
  | .sequence _ items => do
    let parts ← items.mapM fun
      | .mapping _ pairs => Except.ok pairs
      | .loop true => Except.ok []
      | _ => ungrammatical
    return parts.reverse
  | .loop true => .ok []
  | _ => ungrammatical

/-- The pairs of a mapping with merged ones in front, and the key of its own value read as
text. -/
def flatten : (room : Nat) → List (Node × Node) → Except Fault (List (Node × Node))
  | 0, _ => .error .tooDeep
  | room + 1, pairs => do
    let parts ← pairs.mapM fun (key, value) => do
      if key.tag = Tag.merge then
        let merged ← mergedPairs value
        return (← merged.mapM (flatten room)).flatten
      else return []
    let own := pairs.filterMap fun (key, value) =>
      if key.tag = Tag.merge then none
      else match key with
        | .scalar tag text =>
          some (.scalar (if tag = Tag.value then Tag.text else tag) text, value)
        | other => some (other, value)
    return parts.flatten ++ own

/-- The text of a node that is read as a scalar: its own, or that of a mapping's own value. -/
def scalarText : (room : Nat) → Node → Except Fault Text
  | 0, _ => .error .tooDeep
  | room + 1, node =>
    match node with
    | .scalar _ text => .ok text
    | .mapping _ pairs =>
      match pairs.find? fun (key, _) => key.tag = Tag.value with
      | some (_, value) => scalarText room value
      | none => ungrammatical
    | _ => ungrammatical

/-- The collection that a tag asks for. -/
def shapeOf? (tag : Tag) : Option Shape :=
  if tag = Tag.list then some .list
  else if tag = Tag.map then some .map
  else if tag = Tag.standard "set" then some .set
  else if tag = Tag.standard "omap" || tag = Tag.standard "pairs" then some .pairs
  else none

/-- The value of a node. What is inside of a collection is not looked at yet. -/
def value (room : Nat) (node : Node) : Except Fault Value :=
  match node with
  | .loop _ => .ok .collection
  | _ =>
    match shapeOf? node.tag with
    | some _ => .ok .collection
    | none => do Value.ofScalar node.tag (← scalarText room node)

/-- The values of the pairs of a mapping; a collection cannot be a key. -/
def pairValues (room : Nat) (pairs : List (Node × Node)) : Except Fault (List (Value × Value)) :=
  pairs.mapM fun (key, item) => do
    let name ← key.value room
    if name = .collection then ungrammatical
    else return (name, ← item.value room)

/-- The nodes inside a collection, each with its value checked but not what is inside it. -/
def inside (room : Nat) (node : Node) : Except Fault (List Node) :=
  match shapeOf? node.tag, node with
  | some .list, .sequence _ items => do
    let _ ← items.mapM (value room)
    return items
  | some .map, .mapping _ pairs => do
    let pairs ← flatten room pairs
    let _ ← pairValues room pairs
    return pairs.map Prod.snd
  | some .set, .mapping _ pairs => do
    let pairs ← flatten room pairs
    let _ ← pairValues room pairs
    return pairs.map Prod.snd
  | some .pairs, .sequence _ items => do
    let parts ← items.mapM fun
      | .mapping _ [(key, item)] => do
        let _ ← value room key
        let _ ← value room item
        return [key, item]
      | _ => ungrammatical
    return parts.flatten
  | _, .loop _ => .ok []
  | none, _ => .ok []
  | _, _ => ungrammatical

/-- Checks everything inside some nodes, level by level. A tree has no more levels than nodes. -/
def checkInside (room : Nat) : (levels : Nat) → List Node → Except Fault Unit
  | 0, _ => .ok ()
  | levels + 1, nodes => do
    let next := (← nodes.mapM (inside room)).flatten
    if next.isEmpty then return () else checkInside room levels next

def document [Runtime] (root : Node) : Except Fault Document := do
  let room := Runtime.merges
  let whole ← root.value room
  checkInside room (root.size + 1) [root]
  match whole, shapeOf? root.tag, root with
  | .null, _, _ => return .empty
  | _, some .map, .mapping _ pairs =>
    let values ← pairValues room (← flatten room pairs)
    return .mapping (Assoc.ofPairs (values.filterMap fun
      | (.text name, item) => some (name, item)
      | _ => none))
  | _, _, _ => return .other

end Node

def Document.ofText? [Runtime] (text : List Char) : Except Fault Document := do
  match ← Node.ofText? text with
  | some root => root.document
  | none => return .empty

end SessionKeeper.Yaml
