import FormLetter.Tree.Basic

/-!
# Layouts

The element names that give a tree its structure. A loop repeats blocks, or table rows if its
marker stands in a cell.
-/

namespace FormLetter

/-- `block` is an element that wraps runs of text, such as a paragraph. Only text directly in a
`textContainer` is looked at, if one is named. -/
structure Layout where
  block : String := "w:p"
  cell : String := "w:tc"
  row : String := "w:tr"
  textContainer : Option String := some "w:t"
  deriving DecidableEq, Repr, Inhabited

namespace Layout

/-- Paragraphs and tables of a web page, where all text counts. -/
def html : Layout := ⟨"p", "td", "tr", none⟩

def isAt (name : String) (root : Node) (path : Path) : Bool :=
  (root.get? path).any (·.isElement name)

/-- The length of the path to the innermost block above a node, the root not counted. -/
def blockDepth? (layout : Layout) (root : Node) (path : Path) : Option Nat :=
  (List.range path.length).reverse.find? fun d => 0 < d && isAt layout.block root (path.take d)

/-- The length of the path to what a loop marker at a path stands for: the innermost block above
it or, if that is a child of a cell in a row, the row. -/
def boundaryDepth? (layout : Layout) (root : Node) (path : Path) : Option Nat :=
  (layout.blockDepth? root path).map fun d =>
    if 3 ≤ d && isAt layout.cell root (path.take (d - 1)) &&
        isAt layout.row root (path.take (d - 2)) then d - 2
    else d

theorem blockDepth?_bounds {layout : Layout} {root : Node} {path : Path} {d : Nat}
    (h : layout.blockDepth? root path = some d) : 0 < d ∧ d < path.length := by
  have hm := List.mem_of_find?_eq_some h
  have hp := List.find?_some h
  simp only [List.mem_reverse, List.mem_range] at hm
  simp only [Bool.and_eq_true, decide_eq_true_eq] at hp
  exact ⟨hp.1, hm⟩

theorem boundaryDepth?_bounds {layout : Layout} {root : Node} {path : Path} {d : Nat}
    (h : layout.boundaryDepth? root path = some d) : 0 < d ∧ d < path.length := by
  obtain ⟨b, hb, rfl⟩ := Option.map_eq_some_iff.1 h
  have := blockDepth?_bounds hb
  split
  · rename_i hc
    simp only [Bool.and_eq_true, decide_eq_true_eq] at hc
    omega
  · exact this

end Layout

end FormLetter
