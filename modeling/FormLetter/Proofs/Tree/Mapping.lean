import FormLetter.Proofs.Tree.Fragment

/-!
# Texts by their paths

`mapTexts` rewrites the texts of a tree, each by the path that leads to it, and leaves everything
else alone.
-/

namespace FormLetter.Node

mutual

/-- The tree with each of its texts rewritten. Names, attributes and the order of children stay. -/
def mapTexts (f : Path → String → String) : Node → Node
  | .text s => .text (f [] s)
  | .element name attributes children => .element name attributes (mapAllTexts f 0 children)

/-- The children with their texts rewritten, the first of which has this index. -/
def mapAllTexts (f : Path → String → String) (index : Nat) : List Node → List Node
  | [] => []
  | n :: ns => n.mapTexts (fun path => f (index :: path)) :: mapAllTexts f (index + 1) ns

end

mutual

theorem hasFragment_mapTexts (f : Path → String → String) :
    (n : Node) → (n.mapTexts f).hasFragment = n.hasFragment
  | .text _ => rfl
  | .element name attributes children => by
    rw [mapTexts, hasFragment, hasFragment, haveFragment_mapAllTexts]

theorem haveFragment_mapAllTexts (f : Path → String → String) (index : Nat) :
    (ns : List Node) → haveFragment (mapAllTexts f index ns) = haveFragment ns
  | [] => rfl
  | n :: ns => by
    rw [mapAllTexts, haveFragment, haveFragment, hasFragment_mapTexts, haveFragment_mapAllTexts]

end

mutual

theorem mapTexts_self : (n : Node) → n.mapTexts (fun _ s => s) = n
  | .text _ => rfl
  | .element name attributes children => by rw [mapTexts, mapAllTexts_self]

theorem mapAllTexts_self (index : Nat) :
    (ns : List Node) → mapAllTexts (fun _ s => s) index ns = ns
  | [] => rfl
  | n :: ns => by rw [mapAllTexts, mapTexts_self, mapAllTexts_self]

end

theorem mapAllTexts_congr {f g : Path → String → String} {index : Nat} {ns : List Node}
    (h : ∀ i path s, index ≤ i → f (i :: path) s = g (i :: path) s) :
    mapAllTexts f index ns = mapAllTexts g index ns := by
  induction ns generalizing index with
  | nil => rfl
  | cons n ns ih =>
    have hn : (fun path => f (index :: path)) = fun path => g (index :: path) :=
      funext fun path => funext fun s => h index path s (Nat.le_refl _)
    rw [mapAllTexts, mapAllTexts, hn, ih fun i path s hi => h i path s (by omega)]

end FormLetter.Node
