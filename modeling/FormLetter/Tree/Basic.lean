/-!
# Document trees

A `Node` is a text or an element with attributes and children. A `Path` leads from a node down
to one below it by child indices. An element named `fragment` below the root holds finished
output: `flatten` puts its children in its place.
-/

namespace FormLetter

inductive Node where
  | text (content : String)
  | element (name : String) (attributes : List (String × String)) (children : List Node)
  deriving Repr, Inhabited

/-- Child indices, from a node down. -/
abbrev Path := List Nat

namespace Node

def name? : Node → Option String
  | .element name _ _ => some name
  | .text _ => none

def text? : Node → Option String
  | .text s => some s
  | .element .. => none

def attributes : Node → List (String × String)
  | .element _ attributes _ => attributes
  | .text _ => []

def children : Node → List Node
  | .element _ _ children => children
  | .text _ => []

/-- Whether the node is an element of this name. -/
def isElement (name : String) (n : Node) : Bool := n.name? == some name

/-- The name of the elements that hold finished output. -/
def fragmentName : String := "#fragment"

def fragment (children : List Node) : Node := .element fragmentName [] children

def isFragment (n : Node) : Bool := n.isElement fragmentName

/-- The node that a path leads to. -/
def get? : Path → Node → Option Node
  | [], n => some n
  | i :: path, n => (n.children[i]?).bind (get? path)

/-- The tree with `f` applied to the node at a path; none if there is no such node, or `f` gives
none. -/
def modify? (f : Node → Option Node) : Path → Node → Option Node
  | [], n => f n
  | i :: path, .element name attributes children => do
    let child ← children[i]?
    let child ← modify? f path child
    some (.element name attributes (children.set i child))
  | _ :: _, .text _ => none

/-- The tree with the children of the element at a path rewritten. -/
def modifyChildren (f : List Node → List Node) : Path → Node → Node
  | [], .element name attributes children => .element name attributes (f children)
  | i :: path, .element name attributes children =>
    .element name attributes (children.modify i (modifyChildren f path))
  | _, .text s => .text s

/-- The tree with one more child, the last, of the element at a path. -/
def push? (child : Node) : Path → Node → Option Node :=
  modify? fun
    | .element name attributes children => some (.element name attributes (children ++ [child]))
    | .text _ => none

mutual

/-- All text below a node, in order. -/
def textContent : Node → String
  | .text s => s
  | .element _ _ children => textContents children

def textContents : List Node → String
  | [] => ""
  | n :: ns => n.textContent ++ textContents ns

end

mutual

/-- The tree with the children of every fragment below the root in its place. -/
def flatten : Node → Node
  | .text s => .text s
  | .element name attributes children => .element name attributes (flattenChildren children)

def flattenChildren : List Node → List Node
  | [] => []
  | n :: ns =>
    (if n.isFragment then n.flatten.children else [n.flatten]) ++ flattenChildren ns

end

end Node

end FormLetter
