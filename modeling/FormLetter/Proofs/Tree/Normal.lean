import FormLetter.Tree.Basic

/-!
# Normal trees

In a normal tree no child is an empty text, and no two texts stand next to each other. `normalise`
makes a tree normal (`normal_normalise`): it drops empty texts and joins adjacent ones, in every
child list, and leaves everything else as it is. A normal tree is its own normal form
(`normalise_of_normal`). What holds of the elements and texts of a tree holds of those of its normal
form, if it is kept when texts are joined (`everywhere_normalise`).
-/

namespace FormLetter.Node

/-- Puts a node in front of nodes. A text is joined with the text that they start with, and dropped
if it is empty. -/
def joinFront : Node → List Node → List Node
  | .text s, .text t :: ns => .text (s ++ t) :: ns
  | .text s, ns => if s = "" then ns else .text s :: ns
  | .element name attributes children, ns => .element name attributes children :: ns

mutual

/-- The tree without empty texts, and with adjacent texts joined. -/
def normalise : Node → Node
  | .text s => .text s
  | .element name attributes children => .element name attributes (normaliseAll children)

def normaliseAll : List Node → List Node
  | [] => []
  | n :: ns => joinFront n.normalise (normaliseAll ns)

end

def startsWithText : List Node → Bool
  | .text _ :: _ => true
  | _ => false

/-- A node in front of nodes that is neither an empty text nor one of two adjacent texts. -/
def Apart : Node → List Node → Prop
  | .text s, ns => s ≠ "" ∧ startsWithText ns = false
  | .element .., _ => True

mutual

/-- A tree whose elements have a name and attributes in `P`, and whose texts are in `Q`. -/
def Everywhere (P : String → List (String × String) → Prop) (Q : String → Prop) : Node → Prop
  | .text s => Q s
  | .element name attributes children => P name attributes ∧ EverywhereAll P Q children

def EverywhereAll (P : String → List (String × String) → Prop) (Q : String → Prop) :
    List Node → Prop
  | [] => True
  | n :: ns => n.Everywhere P Q ∧ EverywhereAll P Q ns

end

mutual

/-- A tree without empty or adjacent texts in any child list. -/
def Normal : Node → Prop
  | .text _ => True
  | .element _ _ children => NormalAll children

def NormalAll : List Node → Prop
  | [] => True
  | n :: ns => n.Normal ∧ Apart n ns ∧ NormalAll ns

end

theorem joinFront_empty (ns : List Node) : joinFront (.text "") ns = ns := by
  cases ns with
  | nil => rfl
  | cons n ns =>
    cases n with
    | text t => rw [joinFront, String.empty_append]
    | element name attributes children => rfl

theorem joinFront_of_apart {n : Node} {ns : List Node} (h : Apart n ns) :
    joinFront n ns = n :: ns := by
  cases n with
  | element name attributes children => rfl
  | text s =>
    obtain ⟨hs, hstart⟩ := h
    cases ns with
    | nil => exact if_neg hs
    | cons m ns =>
      cases m with
      | text t => cases hstart
      | element name attributes children => exact if_neg hs

theorem joinFront_text_cases {s : String} (hs : s ≠ "") (ns : List Node) :
    (∃ t ms, ns = .text t :: ms ∧ joinFront (.text s) ns = .text (s ++ t) :: ms) ∨
      Apart (.text s) ns := by
  cases ns with
  | nil => exact .inr ⟨hs, rfl⟩
  | cons n ns =>
    cases n with
    | text t => exact .inl ⟨t, ns, rfl, rfl⟩
    | element name attributes children => exact .inr ⟨hs, rfl⟩

theorem normalAll_joinFront {n : Node} (hn : n.Normal) {ns : List Node} (h : NormalAll ns) :
    NormalAll (joinFront n ns) := by
  cases n with
  | element name attributes children => exact ⟨hn, trivial, h⟩
  | text s =>
    by_cases hs : s = ""
    · rw [hs, joinFront_empty]
      exact h
    · rcases joinFront_text_cases hs ns with ⟨t, ms, rfl, hjoin⟩ | hapart
      · obtain ⟨-, ⟨-, hstart⟩, hms⟩ := h
        rw [hjoin]
        exact ⟨trivial, ⟨fun he => hs (String.append_eq_empty_iff.1 he).1, hstart⟩, hms⟩
      · rw [joinFront_of_apart hapart]
        exact ⟨trivial, hapart, h⟩

mutual

theorem normal_normalise : (n : Node) → n.normalise.Normal
  | .text _ => trivial
  | .element _ _ children => normalAll_normaliseAll children

theorem normalAll_normaliseAll : (ns : List Node) → NormalAll (normaliseAll ns)
  | [] => trivial
  | n :: ns => normalAll_joinFront (normal_normalise n) (normalAll_normaliseAll ns)

end

mutual

/-- A normal tree is its own normal form. -/
theorem normalise_of_normal : (n : Node) → n.Normal → n.normalise = n
  | .text _, _ => rfl
  | .element name attributes children, h =>
    congrArg (Node.element name attributes) (normaliseAll_of_normalAll children h)

theorem normaliseAll_of_normalAll : (ns : List Node) → NormalAll ns → normaliseAll ns = ns
  | [], _ => rfl
  | n :: ns, ⟨hn, hapart, hns⟩ => by
    rw [normaliseAll, normalise_of_normal n hn, normaliseAll_of_normalAll ns hns,
      joinFront_of_apart hapart]

end

theorem name?_normalise (n : Node) : n.normalise.name? = n.name? := by
  cases n <;> rfl

theorem normalise_normalise (n : Node) : n.normalise.normalise = n.normalise :=
  normalise_of_normal _ (normal_normalise n)

theorem textContents_append (ns ms : List Node) :
    textContents (ns ++ ms) = textContents ns ++ textContents ms := by
  induction ns with
  | nil => rw [List.nil_append, textContents, String.empty_append]
  | cons n ns ih => rw [List.cons_append, textContents, textContents, ih, String.append_assoc]

section Everywhere

variable {P : String → List (String × String) → Prop} {Q : String → Prop}

theorem everywhereAll_iff {ns : List Node} :
    EverywhereAll P Q ns ↔ ∀ n ∈ ns, n.Everywhere P Q := by
  induction ns with
  | nil => exact iff_of_true trivial (List.forall_mem_nil _)
  | cons n ns ih => rw [EverywhereAll, ih, List.forall_mem_cons]

theorem everywhereAll_joinFront (happend : ∀ s t, Q s → Q t → Q (s ++ t)) {n : Node}
    (hn : n.Everywhere P Q) {ns : List Node} (h : EverywhereAll P Q ns) :
    EverywhereAll P Q (joinFront n ns) := by
  cases n with
  | element name attributes children => exact ⟨hn, h⟩
  | text s =>
    by_cases hs : s = ""
    · rw [hs, joinFront_empty]
      exact h
    · rcases joinFront_text_cases hs ns with ⟨t, ms, rfl, hjoin⟩ | hapart
      · rw [hjoin]
        exact ⟨happend s t hn h.1, h.2⟩
      · rw [joinFront_of_apart hapart]
        exact ⟨hn, h⟩

mutual

theorem everywhere_normalise (happend : ∀ s t, Q s → Q t → Q (s ++ t)) :
    (n : Node) → n.Everywhere P Q → n.normalise.Everywhere P Q
  | .text _, h => h
  | .element _ _ children, h => ⟨h.1, everywhereAll_normaliseAll happend children h.2⟩

theorem everywhereAll_normaliseAll (happend : ∀ s t, Q s → Q t → Q (s ++ t)) :
    (ns : List Node) → EverywhereAll P Q ns → EverywhereAll P Q (normaliseAll ns)
  | [], _ => trivial
  | n :: ns, h => everywhereAll_joinFront happend (everywhere_normalise happend n h.1)
      (everywhereAll_normaliseAll happend ns h.2)

end

end Everywhere

end FormLetter.Node
