import LedgerScan.Scan.Plan

/-!
# The tree of a scan

A scan is put together step by step: leaves are added, and each of them can be reopened by its
number at any time and set anew. The tree keeps its nodes in one list, in which they refer to each
other by their places: node zero is the root, and the root lists the places of its leaves. A number
is only worth something if there is a node at its place, so what follows the numbers of the root may
find nothing (`ScanTree.leaves?`).

The leaves below the root, in the order in which the root lists them, are the scan that is planned
and fetched.
-/

namespace LedgerScan

/-! ## 1. Settings -/

/-- What can be set on a leaf. -/
inductive Leaf.Setting where
  | select (names : List String)
  | selectNothing
  | filtered (conditions : Conditions)
  | metadata (value : Json)
  | requestId (value : Json)

/-- The leaf after something is set on it. -/
def Leaf.Setting.apply : Leaf.Setting → Leaf → Leaf
  | .select names, leaf => leaf.select names
  | .selectNothing, leaf => leaf.selectNothing
  | .filtered conditions, leaf => leaf.filtered conditions
  | .metadata value, leaf => leaf.withMetadata value
  | .requestId value, leaf => leaf.withRequestId value

/-! ## 2. Nodes -/

/-- A node as it is stored: the places of its parent and of its children, and what is asked of a
    program. The root asks nothing. -/
structure TreeNode where
  parent : Option Nat
  children : List Nat
  leaf : Option Leaf

/-- A scan while it is put together. -/
structure ScanTree where
  schema : Schema
  record : String
  config : Config
  nodes : List TreeNode

namespace ScanTree

/-- A tree that has only a root. -/
def ofRecord (schema : Schema) (record : String) : ScanTree :=
  ⟨schema, record, .standard, [⟨none, [], none⟩]⟩

/-- Changes what the scan uses when nothing else is said. -/
def withConfig (tree : ScanTree) (config : Config) : ScanTree := { tree with config }

/-- The number of nodes, which is also the number of the leaf that is added next. -/
def size (tree : ScanTree) : Nat := tree.nodes.length

/-- Adds a leaf for a program and lists it with the root. -/
def add (tree : ScanTree) (address : String) : ScanTree :=
  let leaf : TreeNode := ⟨some 0, [], some (Leaf.ofAddress address)⟩
  { tree with
    nodes := (tree.nodes ++ [leaf]).modify 0 fun root =>
      { root with children := root.children ++ [tree.size] } }

/-- Whether a number can be reopened: it is not that of the root, and there is such a node. -/
def isLeaf (tree : ScanTree) (number : Nat) : Bool :=
  number ≠ 0 && number < tree.size

/-- Sets something on the node with a number. -/
def set (tree : ScanTree) (number : Nat) (setting : Leaf.Setting) : ScanTree :=
  { tree with
    nodes := tree.nodes.modify number fun node =>
      { node with leaf := node.leaf.map setting.apply } }

/-- The node with a number as it is seen from outside. -/
def node? (tree : ScanTree) (number : Nat) : Option Node :=
  tree.nodes[number]?.map fun node =>
    ⟨node.leaf.map (·.address), node.parent, node.children,
      (node.leaf.map (·.selection)).getD .all⟩

/-- The numbers that the root lists. -/
def leafNumbers (tree : ScanTree) : List Nat :=
  (tree.nodes[0]?.map (·.children)).getD []

/-! ## 3. Steps -/

/-- A step by which a scan is put together. -/
inductive Step where
  /-- Adds a leaf. -/
  | add (address : String)
  /-- Reopens the leaf with a number and sets something on it. -/
  | set (number : Nat) (setting : Leaf.Setting)

/-- The tree after a step. A number that is that of no leaf cannot be reopened. -/
def step (tree : ScanTree) : Step → ScanTree
  | .add address => tree.add address
  | .set number setting => if tree.isLeaf number then tree.set number setting else tree

/-- The tree after many steps. -/
def run (tree : ScanTree) (steps : List Step) : ScanTree :=
  steps.foldl step tree

/-! ## 4. Plans -/

/-- The leaves that the root lists, each with its number; nothing if one of them is not there. -/
def leaves? (tree : ScanTree) : Option (List (Nat × Leaf)) :=
  tree.leafNumbers.mapM fun number => do
    let node ← tree.nodes[number]?
    return (number, ← node.leaf)

/-- The scan of these leaves. -/
def scanOf (tree : ScanTree) (leaves : List (Nat × Leaf)) : Scan :=
  ⟨tree.schema, tree.record, tree.config, leaves.map (·.2)⟩

/-- The scan that is fetched. -/
def scan? (tree : ScanTree) : Option Scan :=
  tree.leaves?.map tree.scanOf

/-- The plans of the leaves that the root lists, in its order. -/
def plan? (tree : ScanTree) (commitment : Commitment) :
    Option (Except ScanError (List LeafPlan)) := do
  let leaves ← tree.leaves?
  if leaves.isEmpty then return .ok []
  match tree.schema.layoutOf tree.record with
  | .error e => return .error (.layout e)
  | .ok layout =>
    return leaves.mapM fun (number, leaf) =>
      (tree.scanOf leaves).planLeaf layout commitment leaf number

end ScanTree

end LedgerScan
