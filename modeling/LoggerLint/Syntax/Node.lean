import LoggerLint.Text.Position

/-!
# Syntax trees

A source is read into a tree of nodes. A node has a kind, a span of bytes, and children; a child may
stand in a named field of its parent. Trees come from a parser, and nothing here trusts them: spans may
be empty, reversed or reach past the source, and fields may be missing.

* `Node.text` is what a node covers;
* `Node.sameAs` tells whether two nodes stand for the same piece of syntax;
* `Node.errors` lists the places where the source could not be read.
-/

namespace LoggerLint

/-- What a node says of itself, its children apart. -/
structure Label where
  /-- what the node is -/
  kind : String
  /-- the offset of its first byte -/
  start : Nat
  /-- the offset after its last byte -/
  stop : Nat
  /-- the field of its parent in which it stands -/
  field : Option String := none
  /-- a named node, and no mere keyword or mark -/
  named : Bool := true
  /-- a node that the parser had to make up -/
  missing : Bool := false
  /-- a node that covers no text, whatever its span -/
  textless : Bool := false
  deriving DecidableEq, Repr, Inhabited

/-- A node of a syntax tree. -/
inductive Node where
  /-- a label and the children in order -/
  | mk (label : Label) (children : List Node)
  deriving Repr, Inhabited

namespace Node

/-! ## Parts -/

/-- What the node says of itself. -/
def label : Node → Label
  | ⟨label, _⟩ => label

/-- The children in order. -/
def children : Node → List Node
  | ⟨_, children⟩ => children

/-- What the node is. -/
def kind (node : Node) : String := node.label.kind

/-- The offset of the node's first byte. -/
def start (node : Node) : Nat := node.label.start

/-- The offset after the node's last byte. -/
def stop (node : Node) : Nat := node.label.stop

/-- A named node, and no mere keyword or mark. -/
def named (node : Node) : Bool := node.label.named

/-- Does the node stand in this field of its parent? -/
def inField (node : Node) (field : String) : Bool :=
  node.label.field == some field

/-- The children that are named. -/
def namedChildren (node : Node) : List Node :=
  node.children.filter named

/-- The first child in a field. -/
def child? (node : Node) (field : String) : Option Node :=
  node.children.find? (·.inField field)

/-! ## Text and identity -/

/-- The bytes that a node covers. -/
def bytes (source : Bytes) (node : Node) : Bytes :=
  if node.label.textless then [] else (source.take node.stop).drop node.start

/-- The text that a node covers; bytes that are no text are left out. -/
def text (source : Bytes) (node : Node) : String :=
  String.ofList (Utf8.decodeLossy (node.bytes source))

/-- Two nodes of one kind and one span stand for the same piece of syntax. -/
def sameAs (left right : Node) : Bool :=
  left.kind == right.kind && left.start == right.start && left.stop == right.stop

/-- Both nodes are there, and they are the same piece of syntax. -/
def same? : (left right : Option Node) → Bool
  | some left, some right => left.sameAs right
  | _, _ => false

/-! ## Places that could not be read -/

/-- Is this node itself an error, or made up by the parser? -/
def isError (node : Node) : Bool :=
  node.kind == "ERROR" || node.label.missing

mutual

/-- Is there an error at or below the node? -/
def hasError : Node → Bool
  | ⟨label, children⟩ => label.kind == "ERROR" || label.missing || anyHasError children

/-- Is there an error at or below one of the nodes? -/
def anyHasError : List Node → Bool
  | [] => false
  | node :: rest => node.hasError || anyHasError rest

end

mutual

/-- The outermost errors at or below a node, in document order. A subtree without errors is not
entered. -/
def errors : Node → List Node
  | ⟨label, children⟩ =>
    if label.kind == "ERROR" || label.missing then [⟨label, children⟩]
    else if hasError ⟨label, children⟩ then errorsOfAll children
    else []

/-- The outermost errors at or below the nodes, in document order. -/
def errorsOfAll : List Node → List Node
  | [] => []
  | node :: rest => node.errors ++ errorsOfAll rest

end

end Node

/-- A node together with the nodes around it, the innermost first. -/
structure Site where
  /-- the node -/
  node : Node
  /-- its parent, the parent of that, and so on -/
  above : List Node
  deriving Repr, Inhabited

namespace Site

/-- The node that holds this one. -/
def parent? (site : Site) : Option Node :=
  site.above.head?

/-- The node two levels up. -/
def grandparent? (site : Site) : Option Node :=
  site.above[1]?

end Site

end LoggerLint
