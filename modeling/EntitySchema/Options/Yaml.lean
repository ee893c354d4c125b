import EntitySchema.Options.Setting
import EntitySchema.Options.Yaml.Node

/-! Option files in YAML: a mapping from names to values. -/

namespace EntitySchema.Yaml

namespace Node

/-! ### Anchors -/

mutual

/-- The nodes with anchors, by their numbers, in the order of the text. -/
def anchors : Node → List (Nat × Node)
  | scalar _ _ | reference _ => []
  | list items => itemAnchors items
  | mapping entries => entryAnchors entries
  | anchored number node => (number, node) :: anchors node
  | tagged _ node => anchors node

def itemAnchors : List Node → List (Nat × Node)
  | [] => []
  | item :: items => anchors item ++ itemAnchors items

def entryAnchors : List (Node × Node) → List (Nat × Node)
  | [] => []
  | (key, value) :: entries => anchors key ++ anchors value ++ entryAnchors entries

end

/-- The node without its anchor, or the node that it refers to: the last one with the
number. -/
def target (anchors : List (Nat × Node)) : Node → Node
  | reference number => (anchors.reverse.lookup number).getD empty
  | anchored _ node => node
  | node => node

/-! ### Settings -/

/-- The setting that a node is inside a list. -/
def itemSetting : Node → Setting
  | scalar text plain => if plain then .word text else .text text
  | tagged name node => .tagged name node.itemSetting
  | _ => .other

/-- The setting that a node is. -/
def setting (anchors : List (Nat × Node)) : Node → Setting
  | list items => .list (items.map fun item => (item.target anchors).itemSetting)
  | tagged name node => .tagged name (node.setting anchors)
  | node => node.itemSetting

/-- The text of a scalar, whatever its tag. -/
def text? : Node → Option String
  | scalar text _ => some text
  | tagged _ node => node.text?
  | _ => none

/-- A node without its anchor and its tag. -/
def content : Node → Node
  | anchored _ node | tagged _ node => node.content
  | node => node

/-- The settings of a file. A file without content has none. -/
def settings? (root : Node) : Option (List (String × Setting)) :=
  let anchors := root.anchors
  match root.content with
  | scalar "" true => some []
  | mapping entries => entries.mapM fun (key, value) => do
    pure (← (key.target anchors).text?, (value.target anchors).setting anchors)
  | _ => none

end Node

/-- The settings in a file. -/
def read? (text : String) : Option (List (String × Setting)) := do
  (← Node.ofTokens? (← Token.ofText? text)).settings?

end EntitySchema.Yaml
