import FormLetter.Proofs.Loop.Counting
import FormLetter.Proofs.Tree.Container
import FormLetter.Proofs.Tree.Scanning

/-!
# Loop ends that no loop takes

In a `Steady` tree the texts of each element count as one, and an element that can be the boundary
of a loop has nothing but its start. There a loop is a run of texts in which each end has its start
(`Nested`), so unrolling it takes no end away that another loop needs, and leaves none over: whether
somewhere more loops have ended than started (`HasStrayEnd`) is the same before and after, and never
so in a body (`Site.steady`).
-/

namespace FormLetter

open FormLetter.Loop

namespace Loop

/-- Somewhere in the texts more loops have ended than started. -/
def HasStrayEnd (texts : List String) : Prop :=
  ∃ front, front <+: texts ∧ startsIn front < endsIn front

/-- As many loops end as start, and none ends before it starts. -/
structure Nested (texts : List String) : Prop where
  eq : startsIn texts = endsIn texts
  le : ∀ front, front <+: texts → endsIn front ≤ startsIn front

variable {xs ys zs texts front : List String}

theorem startsIn_append (xs ys : List String) : startsIn (xs ++ ys) = startsIn xs + startsIn ys :=
  List.countP_append

theorem endsIn_append (xs ys : List String) : endsIn (xs ++ ys) = endsIn xs + endsIn ys :=
  List.countP_append

theorem not_hasStrayEnd_iff :
    ¬HasStrayEnd texts ↔ ∀ front, front <+: texts → endsIn front ≤ startsIn front := by
  simp only [HasStrayEnd, not_exists, not_and, Nat.not_lt]

theorem hasStrayEnd_append_iff : HasStrayEnd (xs ++ ys) ↔ HasStrayEnd xs ∨
    ∃ front, front <+: ys ∧ startsIn xs + startsIn front < endsIn xs + endsIn front := by
  constructor
  · rintro ⟨front, hfront, hlt⟩
    rcases Nat.le_total front.length xs.length with hshort | hlong
    · exact .inl ⟨front, List.prefix_of_prefix_length_le hfront (List.prefix_append xs ys) hshort,
        hlt⟩
    · obtain ⟨more, rfl⟩ :=
        List.prefix_of_prefix_length_le (List.prefix_append xs ys) hfront hlong
      rw [startsIn_append, endsIn_append] at hlt
      exact .inr ⟨more, (List.prefix_append_right_inj xs).1 hfront, hlt⟩
  · rintro (⟨front, hfront, hlt⟩ | ⟨front, hfront, hlt⟩)
    · exact ⟨front, hfront.trans (List.prefix_append xs ys), hlt⟩
    · rw [← startsIn_append, ← endsIn_append] at hlt
      exact ⟨xs ++ front, (List.prefix_append_right_inj xs).2 hfront, hlt⟩

theorem hasStrayEnd_append_of_le (h : ∀ front, front <+: ys → endsIn front ≤ startsIn front) :
    HasStrayEnd (xs ++ ys) ↔ HasStrayEnd xs := by
  refine hasStrayEnd_append_iff.trans (or_iff_left_of_imp ?_)
  rintro ⟨front, hfront, hlt⟩
  have hle := h front hfront
  exact ⟨xs, List.prefix_refl xs, by omega⟩

/-- Nested texts among others make no difference. -/
theorem hasStrayEnd_append_nested (h : Nested ys) (xs zs : List String) :
    HasStrayEnd (xs ++ (ys ++ zs)) ↔ HasStrayEnd (xs ++ zs) := by
  rw [← List.append_assoc, hasStrayEnd_append_iff, hasStrayEnd_append_of_le h.le,
    hasStrayEnd_append_iff, startsIn_append, endsIn_append, h.eq]
  refine or_congr_right (exists_congr fun front => and_congr_right fun _ => ?_)
  omega

/-- Where no loop starts, each end is one too many. -/
theorem hasStrayEnd_of_noStart (h : ∀ s ∈ texts, hasStart s = false) :
    HasStrayEnd texts ↔ ∃ s ∈ texts, hasEnd s = true := by
  constructor
  · rintro ⟨front, hfront, hlt⟩
    obtain ⟨s, hs, he⟩ := List.countP_pos_iff.1 (Nat.lt_of_le_of_lt (Nat.zero_le _) hlt)
    exact ⟨s, hfront.subset hs, he⟩
  · rintro ⟨s, hs, he⟩
    have hzero : startsIn texts = 0 := List.countP_eq_zero.2 fun u hu => by simp [h u hu]
    exact ⟨texts, List.prefix_refl texts, hzero ▸ List.countP_pos_iff.2 ⟨s, hs, he⟩⟩

theorem orderlyTexts_of_length_le_one (h : texts.length ≤ 1) : OrderlyTexts texts := by
  have hs : startsIn texts ≤ texts.length := List.countP_le_length
  have he : endsIn texts ≤ texts.length := List.countP_le_length
  by_cases hstart : startsIn texts = 0
  · exact .inl ⟨hstart, by omega⟩
  · by_cases hend : endsIn texts = 0
    · exact .inr (.inl ⟨by omega, hend⟩)
    · refine .inr (.inr ⟨by omega, fun front hfront => ?_⟩)
      -- a front is empty or all there is
      have hlength := hfront.length_le
      by_cases hnil : front = []
      · rw [hnil]
        exact Nat.le_refl 0
      · have hpos := List.length_pos_iff.2 hnil
        rw [hfront.eq_of_length (by omega)]
        omega

theorem OrderlyTexts.nested_of_pos (h : OrderlyTexts texts) (hs : 0 < startsIn texts)
    (he : 0 < endsIn texts) : Nested texts := by
  rcases h with ⟨hzero, -⟩ | ⟨-, hzero⟩ | ⟨heq, hle⟩
  · omega
  · omega
  · exact ⟨heq, hle⟩

theorem OrderlyTexts.of_append_nested (h : OrderlyTexts (xs ++ (ys ++ zs))) (hys : Nested ys)
    (hpos : 0 < startsIn ys) : OrderlyTexts (xs ++ zs) := by
  have heq := hys.eq
  have hall : Nested (xs ++ (ys ++ zs)) := by
    refine h.nested_of_pos ?_ ?_
    · rw [startsIn_append, startsIn_append]
      omega
    · rw [endsIn_append, endsIn_append]
      omega
  refine .inr (.inr ⟨?_, not_hasStrayEnd_iff.1 fun hstray => ?_⟩)
  · have := hall.eq
    simp only [startsIn_append, endsIn_append] at this ⊢
    omega
  · exact not_hasStrayEnd_iff.2 hall.le ((hasStrayEnd_append_nested hys xs zs).2 hstray)

/-- The texts of a loop: those of its boundary, which has nothing but the start, those of the body,
and those of the node at which it ends. -/
theorem nested_of_parts (hstart : startsIn xs = 1) (hend : endsIn xs = 0)
    (hbody : ∀ front, front <+: ys → endsIn front ≤ startsIn front) (hlast : OrderlyTexts zs)
    (hover : HasStrayEnd (ys ++ zs)) : Nested (xs ++ (ys ++ zs)) ∧ Nested ys := by
  obtain ⟨more, hmore, hlt⟩ :=
    (hasStrayEnd_append_iff.1 hover).resolve_left (not_hasStrayEnd_iff.2 hbody)
  have hle := hbody ys (List.prefix_refl ys)
  have hs : startsIn more ≤ startsIn zs := hmore.sublist.countP_le
  have he : endsIn more ≤ endsIn zs := hmore.sublist.countP_le
  -- what ends the loop has one end and no start
  have hone : startsIn zs = 0 ∧ endsIn zs = 1 ∧ startsIn ys = endsIn ys := by
    rcases hlast with ⟨hzero, hone⟩ | ⟨-, hzero⟩ | ⟨-, hfronts⟩
    · omega
    · omega
    · have := hfronts more hmore
      omega
  refine ⟨⟨?_, not_hasStrayEnd_iff.1 ?_⟩, hone.2.2, hbody⟩
  · simp only [startsIn_append, endsIn_append]
    omega
  · rw [← List.append_assoc, hasStrayEnd_append_iff, hasStrayEnd_append_of_le hbody]
    rintro (⟨front, hfront, hlt⟩ | ⟨rest, hrest, hlt⟩)
    · have : endsIn front ≤ endsIn xs := hfront.sublist.countP_le
      omega
    · have : endsIn rest ≤ endsIn zs := hrest.sublist.countP_le
      rw [startsIn_append, endsIn_append] at hlt
      omega

end Loop

/-! ## Names above a text -/

namespace Node

/-- The names of the elements along a path, the node at its end aside. -/
def namesTo : Path → Node → List String
  | [], _ => []
  | i :: path, n => n.name?.getD "" :: ((n.children[i]?).map (namesTo path)).getD []

mutual

/-- The scanned texts of a node, each with the names of the elements that it is in, from the node
down. -/
def trailsUnder (container parent : Option String) : Node → List (List String × String)
  | .text s => if isSelected container parent then [([], s)] else []
  | .element name _ children => childTrails container name children

def childTrails (container : Option String) (name : String) :
    List Node → List (List String × String)
  | [] => []
  | n :: ns =>
    (if n.isFragment then []
      else (trailsUnder container (some name) n).map fun (names, s) => (name :: names, s)) ++
    childTrails container name ns

end

theorem childTrails_append (container : Option String) (name : String) (ns ms : List Node) :
    childTrails container name (ns ++ ms) =
      childTrails container name ns ++ childTrails container name ms := by
  induction ns with
  | nil => rfl
  | cons n ns ih => rw [List.cons_append, childTrails, childTrails, ih, List.append_assoc]

theorem mem_childTrails {container : Option String} {name : String} {ns : List Node} {c : Node}
    {x : List String × String} (hc : c ∈ ns) (hf : c.isFragment = false)
    (hx : x ∈ trailsUnder container (some name) c) :
    (name :: x.1, x.2) ∈ childTrails container name ns := by
  induction ns with
  | nil => cases hc
  | cons n ns ih =>
    rw [childTrails]
    rcases List.mem_cons.1 hc with rfl | hc
    · refine List.mem_append_left _ ?_
      rw [hf]
      exact List.mem_map_of_mem hx
    · exact List.mem_append_right _ (ih hc)

theorem mem_trailsUnder {container parent : Option String} {p : Path} {s : String} {n : Node}
    (h : (p, s) ∈ textsUnder container parent n) :
    (namesTo p n, s) ∈ trailsUnder container parent n := by
  induction p generalizing n parent with
  | nil =>
    have hn := (mem_textsUnder_iff.1 h).1
    cases hn
    rw [textsUnder] at h
    rw [trailsUnder]
    split at h
    · rename_i hs
      rw [if_pos hs]
      exact List.mem_singleton_self _
    · cases h
  | cons i p ih =>
    obtain ⟨c, hc, hf, hm⟩ := cons_mem_textsUnder_iff.1 h
    rw [namesTo, hc]
    cases n with
    | text t => cases hc
    | element name attributes children =>
      exact mem_childTrails (List.mem_of_getElem? hc) hf (ih hm)

theorem namesTo_append (p q : Path) (n : Node) {m : Node} (h : n.get? p = some m) :
    namesTo (p ++ q) n = namesTo p n ++ namesTo q m := by
  induction p generalizing n with
  | nil =>
    cases h
    rfl
  | cons i p ih =>
    obtain ⟨c, hc, h⟩ := Option.bind_eq_some_iff.1 h
    rw [List.cons_append, namesTo, namesTo, hc]
    simp only [Option.map_some, Option.getD_some, List.cons_append, ih c h]

theorem length_namesTo {p : Path} {n m : Node} (h : n.get? p = some m) :
    (namesTo p n).length = p.length := by
  induction p generalizing n with
  | nil => rfl
  | cons i p ih =>
    obtain ⟨c, hc, h⟩ := Option.bind_eq_some_iff.1 h
    rw [namesTo, hc]
    simp only [Option.map_some, Option.getD_some, List.length_cons, ih h]

theorem isAt_take_iff {name : String} {p : Path} {n m : Node} (h : n.get? p = some m) {d : Nat}
    (hd : d < p.length) :
    Layout.isAt name n (p.take d) = true ↔ (namesTo p n)[d]? = some name := by
  induction p generalizing n d with
  | nil => cases hd
  | cons i p ih =>
    obtain ⟨c, hc, h⟩ := Option.bind_eq_some_iff.1 h
    rw [namesTo, hc]
    cases d with
    | zero =>
      cases n with
      | text s => cases hc
      | element name' attributes children => simp [Layout.isAt, get?, isElement, name?]
    | succ d =>
      have hat : Layout.isAt name n ((i :: p).take (d + 1)) = Layout.isAt name c (p.take d) := by
        rw [Layout.isAt, Layout.isAt, List.take_succ_cons, get?, hc, Option.bind_some]
      rw [hat]
      exact ih h (Nat.lt_of_succ_lt_succ hd)

end Node

/-! ## Boundaries and steady trees -/

namespace Layout

variable {layout : Layout} {root : Node} {path : Path} {d : Nat}

/-- A loop start in a text that is in elements of these names, one in the other, may have the first
one as its boundary: it is the innermost block, or a row with that block in one of its cells. -/
def Bounds (layout : Layout) (names : List String) : Prop :=
  ∃ rest, layout.block ∉ rest ∧
    (names = layout.block :: rest ∨ names = layout.row :: layout.cell :: layout.block :: rest)

theorem blockDepth?_eq_some (h : layout.blockDepth? root path = some d) :
    layout.IsInnermostBlock root path d := by
  obtain ⟨hd, as, bs, hr, has⟩ := List.find?_eq_some_iff_append.1 h
  simp only [Bool.and_eq_true, decide_eq_true_eq] at hd
  refine ⟨(blockDepth?_bounds h).2, hd.2, fun e hde he => ?_⟩
  -- the depths behind `d` are those that are tried before it
  have hsorted : (as ++ d :: bs).Pairwise (· > ·) := by
    rw [← hr, List.pairwise_reverse]
    exact List.pairwise_lt_range
  have hmem : e ∈ as ++ d :: bs := by
    rw [← hr, List.mem_reverse, List.mem_range]
    exact he
  have hbs := (List.pairwise_cons.1 (List.pairwise_append.1 hsorted).2.1).1
  rcases List.mem_append.1 hmem with hmem | hmem
  · have hnot := has e hmem
    simpa [Nat.zero_lt_of_lt hde] using hnot
  · rcases List.mem_cons.1 hmem with rfl | hmem
    · exact absurd hde (Nat.lt_irrefl e)
    · exact absurd (hbs e hmem) (Nat.lt_asymm hde)

theorem drop_of_getElem? {α : Type} {xs : List α} {i : Nat} {x : α} (h : xs[i]? = some x) :
    xs.drop i = x :: xs.drop (i + 1) := by
  obtain ⟨hi, rfl⟩ := List.getElem?_eq_some_iff.1 h
  exact List.drop_eq_getElem_cons hi

/-- The boundary is the first of the names behind it. -/
theorem bounds_of_boundaryDepth? {m : Node} (hm : root.get? path = some m)
    (h : layout.boundaryDepth? root path = some d) :
    layout.Bounds ((root.namesTo path).drop d) := by
  obtain ⟨b, hb, rfl⟩ := Option.map_eq_some_iff.1 h
  obtain ⟨hlt, hat, hdeeper⟩ := blockDepth?_eq_some hb
  have hblock := (Node.isAt_take_iff hm hlt).1 hat
  refine ⟨(root.namesTo path).drop (b + 1), fun hmem => ?_, ?_⟩
  · obtain ⟨j, hj⟩ := List.getElem?_of_mem hmem
    rw [List.getElem?_drop] at hj
    have hlength := (List.getElem?_eq_some_iff.1 hj).1
    rw [Node.length_namesTo hm] at hlength
    have hnone := hdeeper (b + 1 + j) (by omega) hlength
    rw [(Node.isAt_take_iff hm hlength).2 hj] at hnone
    cases hnone
  · split
    · rename_i hrow
      simp only [Bool.and_eq_true, decide_eq_true_eq] at hrow
      obtain ⟨⟨hthree, hcell⟩, hrow⟩ := hrow
      have hcell := (Node.isAt_take_iff hm (by omega)).1 hcell
      have hrow := (Node.isAt_take_iff hm (by omega)).1 hrow
      refine .inr ?_
      rw [drop_of_getElem? hrow, show b - 2 + 1 = b - 1 by omega, drop_of_getElem? hcell,
        show b - 1 + 1 = b by omega, drop_of_getElem? hblock]
    · exact .inl (drop_of_getElem? hblock)

end Layout

/-- The children of an element of this name count as one for the texts that they have, and if the
element may be the boundary of a loop they have its start and no other marker. -/
structure Layout.Sound (layout : Layout) (name : String) (children : List Node) : Prop where
  orderly : OrderlyTexts (Node.childStrings layout.textContainer name children)
  alone : ∀ x ∈ Node.childTrails layout.textContainer name children, hasStart x.2 = true →
    layout.Bounds x.1 →
    startsIn (Node.childStrings layout.textContainer name children) = 1 ∧
      endsIn (Node.childStrings layout.textContainer name children) = 0

/-- Every element of the tree is sound, the root included. Finished output does not count. -/
inductive Node.Steady (layout : Layout) : Node → Prop where
  | text (s : String) : Steady layout (.text s)
  | element {name : String} {attributes : List (String × String)} {children : List Node} :
    layout.Sound name children →
    (∀ n ∈ children, n.isFragment = false → Steady layout n) →
    Steady layout (.element name attributes children)

/-- The nodes are steady, but for finished output. -/
def Layout.SteadyAmong (layout : Layout) (ns : List Node) : Prop :=
  ∀ n ∈ ns, n.isFragment = false → n.Steady layout

/-- From the children `ns` of an element of this name a loop is taken out, which leaves `ms`. -/
structure LosesLoop (container : Option String) (name : String) (ns ms : List Node) : Prop where
  strings : ∃ before loop after, Nested loop ∧ 0 < startsIn loop ∧
    Node.childStrings container name ns = before ++ (loop ++ after) ∧
    Node.childStrings container name ms = before ++ after
  trails : Node.childTrails container name ms ⊆ Node.childTrails container name ns

section Steady

variable {layout : Layout} {container : Option String} {name : String} {ns ms : List Node}
  {place : Place}

theorem Node.Steady.orderly {n : Node} (h : n.Steady layout) (parent : Option String) :
    OrderlyTexts ((Node.textsUnder layout.textContainer parent n).map (·.2)) := by
  cases h with
  | text s =>
    refine orderlyTexts_of_length_le_one ?_
    rw [Node.textsUnder]
    split
    · exact Nat.le_refl 1
    · exact Nat.zero_le 1
  | element hsound _ => exact hsound.orderly

/-- An element that a loop is taken out of cannot be a boundary, and is sound without it. -/
theorem Layout.Sound.of_losesLoop (h : layout.Sound name ns)
    (hloses : LosesLoop layout.textContainer name ns ms) : layout.Sound name ms := by
  obtain ⟨⟨before, loop, after, hloop, hpos, hns, hms⟩, htrails⟩ := hloses
  refine ⟨?_, fun x hx hstart hbounds => ?_⟩
  · rw [hms]
    exact OrderlyTexts.of_append_nested (hns ▸ h.orderly) hloop hpos
  · have hends := (h.alone x (htrails hx) hstart hbounds).2
    have heq := hloop.eq
    rw [hns, endsIn_append, endsIn_append] at hends
    omega

theorem LosesLoop.element (h : LosesLoop container name ns ms) (hname : name ≠ Node.fragmentName)
    (outer : String) (attributes : List (String × String)) (before after : List Node) :
    LosesLoop container outer (before ++ .element name attributes ns :: after)
      (before ++ .element name attributes ms :: after) := by
  have hf := Node.isFragment_eq_false hname attributes
  obtain ⟨⟨front, loop, back, hloop, hpos, hns, hms⟩, htrails⟩ := h
  have hstrings : ∀ children, Node.childStrings container outer
      (before ++ .element name attributes children :: after) =
        Node.childStrings container outer before ++
          (Node.childStrings container name children ++
            Node.childStrings container outer after) := fun children => by
    rw [Node.childStrings_append, Node.childStrings_cons, hf]
    rfl
  refine ⟨⟨Node.childStrings container outer before ++ front, loop,
    back ++ Node.childStrings container outer after, hloop, hpos, ?_, ?_⟩, ?_⟩
  · rw [hstrings, hns]
    simp only [List.append_assoc]
  · rw [hstrings, hms]
    simp only [List.append_assoc]
  · rw [Node.childTrails_append, Node.childTrails_append, Node.childTrails, Node.childTrails, hf,
      hf]
    intro x hx
    simp only [Bool.false_eq_true, ↓reduceIte, Node.trailsUnder, List.mem_append] at hx ⊢
    exact hx.imp_right (Or.imp_left fun hm => List.map_subset _ htrails hm)

theorem steadyAmong_of_fill (hv : place.Visible)
    (h : layout.SteadyAmong (place.fill ns).children) : layout.SteadyAmong ns := by
  induction place generalizing ns with
  | root name attributes => exact h
  | inside outer before name attributes after ih =>
    have hall := ih hv.1 h
    have helement := hall (.element name attributes ns)
      (List.mem_append_right _ (List.mem_cons_self ..)) (Node.isFragment_eq_false hv.2 _ _)
    cases helement with
    | element _ hchildren => exact hchildren

/-- A tree stays steady when a loop is taken out somewhere in it. -/
theorem SteadyAmong.fill (hv : place.Visible) (h : layout.SteadyAmong (place.fill ns).children)
    (hms : layout.SteadyAmong ms) (hloses : LosesLoop layout.textContainer place.name ns ms) :
    layout.SteadyAmong (place.fill ms).children := by
  induction place generalizing ns ms with
  | root name attributes => exact hms
  | inside outer before name attributes after ih =>
    have hall := steadyAmong_of_fill hv.1 h
    refine ih hv.1 h (fun n hn hf => ?_) (hloses.element hv.2 ..)
    rcases List.mem_append.1 hn with hn | hn
    · exact hall n (List.mem_append_left _ hn) hf
    · rcases List.mem_cons.1 hn with rfl | hn
      · have helement := hall (.element name attributes ns)
          (List.mem_append_right _ (List.mem_cons_self ..)) (Node.isFragment_eq_false hv.2 _ _)
        cases helement with
        | element hsound _ => exact .element (hsound.of_losesLoop hloses) hms
      · exact hall n (List.mem_append_right _ (List.mem_cons_of_mem _ hn)) hf

end Steady

/-! ## The first loop of a steady tree -/

namespace Node

theorem textsOf_eq_childStrings {container : Option String} {name : String}
    (h : container ≠ some name) (ns : List Node) : textsOf container ns =
      childStrings container name ns := by
  induction ns with
  | nil => rfl
  | cons n ns ih => rw [textsOf_cons, childStrings_cons, ih, strings, textsUnder_eq_texts h]

theorem mem_textsUnder_of_append {container parent : Option String} {p q : Path} {s : String}
    {n : Node} {name : String} {attributes : List (String × String)} {children : List Node}
    (h : (p ++ q, s) ∈ textsUnder container parent n)
    (hn : n.get? p = some (.element name attributes children)) :
    (q, s) ∈ childTexts container name 0 children := by
  induction p generalizing n parent with
  | nil =>
    cases hn
    exact h
  | cons i p ih =>
    obtain ⟨c, hc, -, hm⟩ := cons_mem_textsUnder_iff.1 h
    rw [get?, hc, Option.bind_some] at hn
    exact ih hm hn

end Node

namespace Loop

variable {layout : Layout} {site : Site} {place : Place} {before following : List Node}
  {first : Node}

/-- The boundary of a loop has its start in it, and may be a boundary by the names on the way. -/
theorem Site.exists_trail_of_find?
    (h : Site.find? layout (place.fill (before ++ first :: following)) = .ok (some site))
    (hparent : place.path = site.parent) (hindex : before.length = site.index) :
    ∃ name attributes children, first = .element name attributes children ∧
      ∃ x ∈ Node.childTrails layout.textContainer name children,
        hasStart x.2 = true ∧ layout.Bounds x.1 := by
  obtain ⟨path, rest, k, hstart, hpath, hdepth, -, -⟩ := Site.find?_eq_some h
  obtain ⟨front, s, back, htexts, -, hheader⟩ := exists_of_firstStart? hstart
  have hmem : (path, s) ∈ (place.fill (before ++ first :: following)).texts layout.textContainer :=
    htexts ▸ List.mem_append_right _ (List.mem_cons_self ..)
  have hfirst : (place.fill (before ++ first :: following)).get? (site.parent ++ [site.index]) =
      some first := by
    rw [← hparent, ← hindex, Place.get?_fill_append]
    simp [Node.get?, Node.children]
  obtain ⟨hboundary, hg, hname⟩ := Site.find?_boundary h
  cases hfirst.symm.trans hg
  cases first with
  | text t => cases hname
  | element name attributes children =>
    rw [← List.singleton_append, ← List.append_assoc] at hpath
    rw [hpath] at hmem hdepth
    have hnames := Node.namesTo_append (site.parent ++ [site.index]) rest _ hfirst
    have hlength := Node.length_namesTo hfirst
    rw [List.length_append, List.length_singleton] at hlength
    have hm := (Node.mem_textsUnder_iff.1 hmem).1
    have hbelow : (rest, s) ∈ Node.textsUnder layout.textContainer none
        (.element name attributes children) := Node.mem_textsUnder_of_append hmem hfirst
    refine ⟨name, attributes, children, rfl, _, Node.mem_trailsUnder hbelow,
      hasStart_of_startIn? hheader, ?_⟩
    have hbounds := Layout.bounds_of_boundaryDepth? hm hdepth
    rwa [hnames, ← hlength, List.drop_left] at hbounds

/-- The texts of a loop body, and those of the node at which the loop ends. -/
theorem hasStrayEnd_of_endIndex? {container : Option String} {name : String}
    {body after : List Node} {last : Node} (hc : container ≠ some name)
    (hlast : last.isFragment = false)
    (h : endIndex? container 1 (body ++ last :: after) = some body.length) :
    (∀ front, front <+: Node.childStrings container name body → endsIn front ≤ startsIn front) ∧
      HasStrayEnd (Node.childStrings container name body ++
        (Node.textsUnder container (some name) last).map (·.2)) := by
  obtain ⟨-, hover, hlevel⟩ := endIndex?_eq_some_iff.1 h
  have htake : (body ++ last :: after).take (body.length + 1) = body ++ [last] := by
    rw [List.append_cons]
    exact List.take_left' List.length_append
  rw [htake, Node.textsOf_eq_childStrings hc, Node.childStrings_append, Node.childStrings_cons,
    hlast] at hover
  rw [List.take_left, Node.textsOf_eq_childStrings hc] at hlevel
  have hnil : Node.childStrings container name [] = [] := rfl
  simp only [Bool.false_eq_true, ↓reduceIte, hnil, List.append_nil] at hover
  exact ⟨hlevel, hover⟩

theorem losesLoop_of_parts {container : Option String} {name : String}
    {before body after output : List Node} {last : Node} (hfirst : first.isFragment = false)
    (hlast : last.isFragment = false)
    (hloop : Nested ((Node.textsUnder container (some name) first).map (·.2) ++
      (Node.childStrings container name body ++
        (Node.textsUnder container (some name) last).map (·.2))))
    (hpos : 0 < startsIn ((Node.textsUnder container (some name) first).map (·.2))) :
    LosesLoop container name (before ++ first :: (body ++ last :: after))
      (before ++ .fragment output :: after) := by
  refine ⟨⟨Node.childStrings container name before, _, Node.childStrings container name after,
    hloop, ?_, ?_, ?_⟩, ?_⟩
  · rw [startsIn_append]
    omega
  · rw [Node.childStrings_append, Node.childStrings_cons, Node.childStrings_append,
      Node.childStrings_cons, hfirst, hlast]
    simp only [Bool.false_eq_true, ↓reduceIte, List.append_assoc]
  · rw [Node.childStrings_append, Node.childStrings_cons, Node.isFragment_fragment, if_pos rfl,
      List.nil_append]
  · intro x hx
    rw [Node.childTrails_append, Node.childTrails, Node.isFragment_fragment, if_pos rfl,
      List.nil_append] at hx
    rw [Node.childTrails_append, Node.childTrails, Node.childTrails_append, Node.childTrails]
    simp only [List.mem_append] at hx ⊢
    exact hx.imp_right fun ha => .inr (.inr (.inr ha))

end Loop

/-- What the first loop of a steady tree is made of: a boundary with its start and no other marker,
a body in which each end has its start, and a node that ends it. -/
theorem Loop.Site.exists_losesLoop {layout : Layout} {root : Node} {site : Site}
    (hcontainers : ∀ c, layout.textContainer = some c → root.holdsOnlyTexts c = true)
    (hsteady : layout.SteadyAmong root.children)
    (h : Site.find? layout root = .ok (some site)) :
    ∃ (place : Place) (ns : List Node), place.Visible ∧ layout.textContainer ≠ some place.name ∧
      root = place.fill ns ∧ site.body ⊆ ns ∧
      Nested (Node.childStrings layout.textContainer place.name site.body) ∧
      ∀ output, ∃ ms, site.replace output root = place.fill ms ∧
        (∀ n ∈ ms, n.isFragment = false → n ∈ ns) ∧
        LosesLoop layout.textContainer place.name ns ms := by
  obtain ⟨place, before, first, last, after, hv, hparent, hindex, hname, hfirst, hlast, hroot, hk,
    hreplace⟩ := Site.exists_place_of_find? h
  have hne := Place.ne_of_holdsOnlyTexts hv hname fun c hc => hroot ▸ hcontainers c hc
  obtain ⟨name, attributes, children, rfl, x, hx, hstart, hbounds⟩ :=
    Site.exists_trail_of_find? (hroot ▸ h) hparent hindex
  have hall := steadyAmong_of_fill hv (hroot ▸ hsteady)
  have hsound : layout.Sound name children := by
    cases hall (.element name attributes children) (by simp) hfirst with
    | element hsound _ => exact hsound
  obtain ⟨hone, hnone⟩ := hsound.alone x hx hstart hbounds
  obtain ⟨hlevel, hover⟩ := hasStrayEnd_of_endIndex? hne hlast hk
  obtain ⟨hloop, hnested⟩ := nested_of_parts hone hnone hlevel
    ((hall last (by simp) hlast).orderly (some place.name)) hover
  refine ⟨place, _, hv, hne, hroot, fun n hn => by simp [hn], hnested, fun output =>
    ⟨_, hreplace output, fun n hn hf => ?_,
      losesLoop_of_parts hfirst hlast hloop (Nat.lt_of_lt_of_eq Nat.one_pos hone.symm)⟩⟩
  have hnot : n ≠ .fragment output := fun he => by
    rw [he, Node.isFragment_fragment] at hf
    cases hf
  rcases List.mem_append.1 hn with hn | hn
  · simp [hn]
  · simp [(List.mem_cons.1 hn).resolve_left hnot]

/-- In a steady tree a loop body is steady and has no end too many, and unrolling the loop leaves a
steady tree that has one exactly if the tree had one before. -/
theorem Loop.Site.steady {layout : Layout} {root : Node} {site : Site}
    (hc : layout.textContainer ≠ some Node.fragmentName)
    (hcontainers : ∀ c, layout.textContainer = some c → root.holdsOnlyTexts c = true)
    (hsteady : layout.SteadyAmong root.children)
    (h : Site.find? layout root = .ok (some site)) :
    layout.SteadyAmong site.body ∧
      ¬HasStrayEnd ((Node.fragment site.body).strings layout.textContainer) ∧
      ∀ output, layout.SteadyAmong (site.replace output root).children ∧
        (HasStrayEnd ((site.replace output root).strings layout.textContainer) ↔
          HasStrayEnd (root.strings layout.textContainer)) := by
  obtain ⟨place, ns, hv, hne, hroot, hbody, hnested, hrest⟩ :=
    Site.exists_losesLoop hcontainers hsteady h
  have hall := steadyAmong_of_fill hv (hroot ▸ hsteady)
  refine ⟨fun n hn => hall n (hbody hn), ?_, fun output => ?_⟩
  · have hstrings : (Node.fragment site.body).strings layout.textContainer =
        Node.childStrings layout.textContainer place.name site.body := by
      rw [← Node.textsOf_eq_childStrings hne, Node.textsOf_eq_childStrings hc]
      rfl
    rw [hstrings, not_hasStrayEnd_iff]
    exact hnested.le
  · obtain ⟨ms, hreplace, hms, hloses⟩ := hrest output
    rw [hreplace]
    refine ⟨SteadyAmong.fill hv (hroot ▸ hsteady) (fun n hn hf => hall n (hms n hn hf) hf) hloses,
      ?_⟩
    obtain ⟨front, loop, back, hloop, -, hns, hms⟩ := hloses.strings
    rw [hroot, Place.strings_fill hv, Place.strings_fill hv, hns, hms]
    simp only [List.append_assoc]
    rw [← List.append_assoc, ← List.append_assoc (List.map _ _) front (loop ++ _)]
    exact (hasStrayEnd_append_nested hloop _ _).symm

end FormLetter
