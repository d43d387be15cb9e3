import FormLetter.Proofs.Tree.Normal
import FormLetter.Proofs.Xml.Tag

/-!
# Writing a normal form

A tree and its normal form are written alike, but for elements whose children are empty texts and
nothing else: these are written with two tags, and in normal form, where they have no children, with
one (`writeNode_normalise_eq_iff`).
-/

namespace FormLetter.Xml

open FormLetter.Node

mutual

/-- Some element has children, and all of them are empty texts. -/
def Hollow : Node → Prop
  | .text _ => False
  | .element _ _ children =>
    (children ≠ [] ∧ ∀ n ∈ children, n = .text "") ∨ HollowAny children

def HollowAny : List Node → Prop
  | [] => False
  | n :: ns => Hollow n ∨ HollowAny ns

end

theorem writeNodes_joinFront (n : Node) (ns : List Node) :
    writeNodes (joinFront n ns) = writeNode n ++ writeNodes ns := by
  cases n with
  | element name attributes children => rfl
  | text s =>
    by_cases hs : s = ""
    · rw [hs, joinFront_empty]
      rfl
    · rcases joinFront_text_cases hs ns with ⟨t, ms, rfl, hjoin⟩ | hapart
      · rw [hjoin]
        simp only [writeNodes, writeNode, String.toList_append, escape_append, List.append_assoc]
      · rw [joinFront_of_apart hapart, writeNodes]

theorem joinFront_eq_nil_iff {n : Node} {ns : List Node} :
    joinFront n ns = [] ↔ n = .text "" ∧ ns = [] := by
  cases n with
  | element name attributes children => simp [joinFront]
  | text s =>
    by_cases hs : s = ""
    · rw [hs, joinFront_empty]
      simp
    · rcases joinFront_text_cases hs ns with ⟨t, ms, rfl, hjoin⟩ | hapart
      · simp [hjoin]
      · simp [joinFront_of_apart hapart, hs]

theorem normaliseAll_eq_nil_iff {ns : List Node} :
    normaliseAll ns = [] ↔ ∀ n ∈ ns, n = .text "" := by
  induction ns with
  | nil => simp [normaliseAll]
  | cons n ns ih =>
    have hn : n.normalise = .text "" ↔ n = .text "" := by cases n <;> simp [normalise]
    rw [normaliseAll, joinFront_eq_nil_iff, hn, ih, List.forall_mem_cons]

mutual

/-- The normal form is written like the tree, or shorter if an element of the tree is hollow. -/
theorem writeNode_normalise_cases : (n : Node) →
    (writeNode n.normalise = writeNode n ∧ ¬Hollow n) ∨
      ((writeNode n.normalise).length < (writeNode n).length ∧ Hollow n)
  | .text _ => .inl ⟨rfl, id⟩
  | .element name attributes children => by
    have hrec := writeNodes_normaliseAll_cases children
    rw [normalise, Hollow]
    by_cases hne : children = []
    · subst hne
      exact .inl ⟨rfl, by simp [HollowAny]⟩
    · by_cases hempty : normaliseAll children = []
      · refine .inr ⟨?_, .inl ⟨hne, normaliseAll_eq_nil_iff.1 hempty⟩⟩
        rw [hempty, writeNode_nil, writeNode_of_ne_nil hne]
        simp
        omega
      · have hkept : ¬∀ n ∈ children, n = .text "" := mt normaliseAll_eq_nil_iff.2 hempty
        rw [writeNode_of_ne_nil hempty, writeNode_of_ne_nil hne]
        rcases hrec with ⟨heq, hnot⟩ | ⟨hlt, hany⟩
        · exact .inl ⟨by rw [heq], not_or.2 ⟨fun h => hkept h.2, hnot⟩⟩
        · refine .inr ⟨?_, .inr hany⟩
          simp
          omega

theorem writeNodes_normaliseAll_cases : (ns : List Node) →
    (writeNodes (normaliseAll ns) = writeNodes ns ∧ ¬HollowAny ns) ∨
      ((writeNodes (normaliseAll ns)).length < (writeNodes ns).length ∧ HollowAny ns)
  | [] => .inl ⟨rfl, id⟩
  | n :: ns => by
    have hn := writeNode_normalise_cases n
    have hns := writeNodes_normaliseAll_cases ns
    rw [normaliseAll, writeNodes_joinFront, writeNodes, HollowAny, List.length_append,
      List.length_append]
    rcases hn with ⟨hn, hnot⟩ | ⟨hn, hany⟩
    · rcases hns with ⟨hns, hnots⟩ | ⟨hns, hanys⟩
      · exact .inl ⟨by rw [hn, hns], not_or.2 ⟨hnot, hnots⟩⟩
      · exact .inr ⟨by rw [hn]; omega, .inr hanys⟩
    · refine .inr ⟨?_, .inl hany⟩
      rcases hns with ⟨hns, -⟩ | ⟨hns, -⟩
      · rw [hns]
        omega
      · omega

end

/-- A tree is written like its normal form if and only if none of its elements is hollow. -/
theorem writeNode_normalise_eq_iff {n : Node} :
    writeNode n.normalise = writeNode n ↔ ¬Hollow n := by
  rcases writeNode_normalise_cases n with ⟨heq, hnot⟩ | ⟨hlt, hany⟩
  · exact iff_of_true heq hnot
  · refine iff_of_false (fun heq => ?_) (not_not_intro hany)
    rw [heq] at hlt
    exact Nat.lt_irrefl _ hlt

end FormLetter.Xml
