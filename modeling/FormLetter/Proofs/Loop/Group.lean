import FormLetter.Proofs.Tree.Place

/-!
# Loops as runs of siblings

A well-formed loop is a run of siblings: a first node that opens it (`Opens`), a body, and a last
node that closes it (`Closes`). `find?_fill` says when such a run is the loop that is found first:
no start comes before it, and the siblings after the first node are balanced up to the last.
-/

namespace FormLetter

open FormLetter.Loop

namespace Layout

/-- The node at depth `d` of a path is the innermost block above the end of the path. -/
def IsInnermostBlock (layout : Layout) (n : Node) (path : Path) (d : Nat) : Prop :=
  d < path.length ∧ isAt layout.block n (path.take d) = true ∧
    ∀ e, d < e → e < path.length → isAt layout.block n (path.take e) = false

theorem blockDepth?_eq {layout : Layout} {root : Node} {path : Path} {d : Nat} (hd : 0 < d)
    (h : layout.IsInnermostBlock root path d) : layout.blockDepth? root path = some d := by
  obtain ⟨hlt, hb, hdeeper⟩ := h
  unfold blockDepth?
  rw [List.find?_eq_some_iff_append]
  refine ⟨by simp [hd, hb], ?_⟩
  -- the depths that are tried before `d` are those above it
  obtain ⟨as, bs, hr⟩ := List.append_of_mem (List.mem_range.2 hlt)
  refine ⟨bs.reverse, as.reverse, by rw [hr]; simp, fun e he => ?_⟩
  have hs : (as ++ d :: bs).Pairwise (· < ·) := hr ▸ List.pairwise_lt_range
  have hde : d < e := (List.pairwise_cons.1 (List.pairwise_append.1 hs).2.1).1 e (by simpa using he)
  have hle : e < path.length :=
    List.mem_range.1 (hr ▸ List.mem_append_right _ (List.mem_cons_of_mem _ (by simpa using he)))
  simp [hdeeper e hde hle]

end Layout

namespace Loop

theorem isSome_startIn? (s : String) : (startIn? s).isSome = hasStart s := by
  simp [startIn?, hasStart, Text.Pattern.occursIn]

theorem hasStart_of_startIn? {s : String} {header : Header} (h : startIn? s = some header) :
    hasStart s = true := by
  rw [← isSome_startIn?, h]
  rfl

/-- No text of a list has a loop start. -/
def NoStart (texts : List (Path × String)) : Prop := ∀ x ∈ texts, hasStart x.2 = false

theorem noStart_nil : NoStart [] := List.forall_mem_nil _

theorem NoStart.append {xs ys : List (Path × String)} (hx : NoStart xs) (hy : NoStart ys) :
    NoStart (xs ++ ys) := fun x h => (List.mem_append.1 h).elim (hx x) (hy x)

theorem NoStart.map {xs : List (Path × String)} (h : NoStart xs)
    {f : Path × String → Path × String} (hf : ∀ x, (f x).2 = x.2) : NoStart (xs.map f) := by
  intro x hx
  obtain ⟨y, hy, rfl⟩ := List.mem_map.1 hx
  rw [hf]
  exact h y hy

theorem NoStart.findSome?_eq_none {xs : List (Path × String)} (h : NoStart xs) :
    (xs.findSome? fun (path, s) => (startIn? s).map fun header => (path, header)) = none := by
  rw [List.findSome?_eq_none_iff]
  intro x hx
  have := h x hx
  rw [← isSome_startIn?, Option.isSome_eq_false_iff, Option.isNone_iff_eq_none] at this
  simp [this]

theorem exists_of_firstStart? {container : Option String} {root : Node} {path : Path}
    {header : Header} (h : firstStart? container root = some (path, header)) :
    ∃ before s after, root.texts container = before ++ (path, s) :: after ∧ NoStart before ∧
      startIn? s = some header := by
  obtain ⟨before, ⟨path', s⟩, after, ht, hs, hb⟩ := List.findSome?_eq_some_iff.1 h
  obtain ⟨header', hheader, he⟩ := Option.map_eq_some_iff.1 hs
  cases he
  refine ⟨before, s, after, ht, fun x hx => ?_, hheader⟩
  rw [← isSome_startIn?, Option.map_eq_none_iff.1 (hb x hx)]
  rfl

theorem firstStart?_eq {container : Option String} {root : Node}
    {before after : List (Path × String)} {path : Path} {s : String} {header : Header}
    (ht : root.texts container = before ++ (path, s) :: after) (hb : NoStart before)
    (hs : startIn? s = some header) : firstStart? container root = some (path, header) := by
  rw [firstStart?, ht, List.findSome?_append, hb.findSome?_eq_none, Option.none_or,
    List.findSome?_cons]
  simp only [hs, Option.map_some]

theorem find?_eq_none {layout : Layout} {root : Node}
    (h : NoStart (root.texts layout.textContainer)) : Site.find? layout root = .ok none := by
  rw [Site.find?, firstStart?, h.findSome?_eq_none]

/-! ## Counting -/

/-- A text with neither a loop start nor a loop end. -/
def IsPlain (s : String) : Prop := hasStart s = false ∧ hasEnd s = false

theorem depthAfter?_append (d : Nat) (xs ys : List String) :
    depthAfter? d (xs ++ ys) = (depthAfter? d xs).bind (depthAfter? · ys) := by
  induction xs generalizing d with
  | nil => rfl
  | cons s xs ih =>
    simp only [List.cons_append, depthAfter?]
    by_cases he : hasEnd s = true
    · by_cases hl : (if hasStart s = true then d + 1 else d) ≤ 1
      · simp [he, hl]
      · simp [he, hl, ih]
    · simp [he, ih]

theorem depthAfter?_plain {xs : List String} (h : ∀ s ∈ xs, IsPlain s) (d : Nat) :
    depthAfter? d xs = some d := by
  induction xs with
  | nil => rfl
  | cons s xs ih =>
    obtain ⟨h1, h2⟩ := h s (List.mem_cons_self ..)
    simp [depthAfter?, h1, h2, ih fun t ht => h t (List.mem_cons_of_mem _ ht)]

/-- The text at a path is the only scanned text of a node that is not plain. -/
def OnlyMarked (container : Option String) (n : Node) (path : Path) (s : String) : Prop :=
  ∃ before after, n.texts container = before ++ (path, s) :: after ∧
    ∀ x ∈ before ++ after, IsPlain x.2

theorem OnlyMarked.depthAfter? {container : Option String} {n : Node} {path : Path} {s : String}
    (h : OnlyMarked container n path s) (d : Nat) :
    depthAfter? d ((n.texts container).map (·.2)) = depthAfter? d [s] := by
  obtain ⟨before, after, ht, hp⟩ := h
  have h1 : ∀ t ∈ before.map (·.2), IsPlain t := fun t hm => by
    obtain ⟨x, hx, rfl⟩ := List.mem_map.1 hm
    exact hp x (List.mem_append_left _ hx)
  have h2 : ∀ t ∈ after.map (·.2), IsPlain t := fun t hm => by
    obtain ⟨x, hx, rfl⟩ := List.mem_map.1 hm
    exact hp x (List.mem_append_right _ hx)
  rw [ht, List.map_append, List.map_cons, ← List.singleton_append, depthAfter?_append,
    depthAfter?_plain h1, Option.bind_some, depthAfter?_append]
  cases Loop.depthAfter? d [s] with
  | none => rfl
  | some after => rw [Option.bind_some, depthAfter?_plain h2]

/-- A loop whose marker is at this path in a node has that node as its boundary: it is the innermost
block above the marker, and the element `parent` that it stands in is no cell, or it is a row and
that block is a child of one of its cells. -/
def StandsFor (layout : Layout) (parent : String) (n : Node) (path : Path) : Prop :=
  (layout.IsInnermostBlock n path 0 ∧ parent ≠ layout.cell) ∨
  (n.isElement layout.row = true ∧ Layout.isAt layout.cell n (path.take 1) = true ∧
    layout.IsInnermostBlock n path 2)

/-- A node that starts a loop with this header: one of its texts has a marker, a loop start, and it
is the boundary of that loop. -/
def Opens (layout : Layout) (parent : String) (header : Header) (n : Node) : Prop :=
  ∃ path s, OnlyMarked layout.textContainer n path s ∧ startIn? s = some header ∧
    hasEnd s = false ∧ StandsFor layout parent n path

def Closes (layout : Layout) (n : Node) : Prop :=
  ∃ path s, OnlyMarked layout.textContainer n path s ∧ hasStart s = false ∧ hasEnd s = true

theorem Opens.depthAfter? {layout : Layout} {parent : String} {header : Header} {n : Node}
    (h : Opens layout parent header n) (d : Nat) :
    depthAfter? d ((n.texts layout.textContainer).map (·.2)) = some (d + 1) := by
  obtain ⟨path, s, hm, hs, he, -⟩ := h
  rw [hm.depthAfter?]
  simp [Loop.depthAfter?, hasStart_of_startIn? hs, he]

theorem Closes.depthAfter?_one {layout : Layout} {n : Node} (h : Closes layout n) :
    depthAfter? 1 ((n.texts layout.textContainer).map (·.2)) = none := by
  obtain ⟨path, s, hm, hs, he⟩ := h
  rw [hm.depthAfter?]
  simp [Loop.depthAfter?, hs, he]

theorem Closes.depthAfter?_add_two {layout : Layout} {n : Node} (h : Closes layout n) (d : Nat) :
    depthAfter? (d + 2) ((n.texts layout.textContainer).map (·.2)) = some (d + 1) := by
  obtain ⟨path, s, hm, hs, he⟩ := h
  rw [hm.depthAfter?]
  simp [Loop.depthAfter?, hs, he]

theorem Opens.of_block {layout : Layout} {parent s : String} {header : Header}
    (hc : layout.textContainer = none) (hp : parent ≠ layout.cell) (hs : startIn? s = some header)
    (he : hasEnd s = false) (attributes : List (String × String)) :
    Opens layout parent header (.element layout.block attributes [.text s]) := by
  refine ⟨[0], s, ⟨[], [], ?_, List.forall_mem_nil _⟩, hs, he,
    .inl ⟨⟨Nat.one_pos, ?_, fun e h1 h2 => ?_⟩, hp⟩⟩
  · rw [hc]
    rfl
  · simp [Layout.isAt, Node.get?, Node.isElement, Node.name?]
  · simp only [List.length_singleton] at h2
    omega

theorem Closes.of_block {layout : Layout} {s : String} (hc : layout.textContainer = none)
    (hs : hasStart s = false) (he : hasEnd s = true) (attributes : List (String × String)) :
    Closes layout (.element layout.block attributes [.text s]) := by
  refine ⟨[0], s, ⟨[], [], ?_, List.forall_mem_nil _⟩, hs, he⟩
  rw [hc]
  rfl

/-! ## Finding it -/

section Find

variable {layout : Layout} {place : Place} {before following : List Node} {first : Node}

theorem isAt_fill (name : String) (place : Place) (before following : List Node) (first : Node)
    (path : Path) (e : Nat) :
    Layout.isAt name (place.fill (before ++ first :: following))
      ((place.path ++ before.length :: path).take (place.path.length + 1 + e)) =
    Layout.isAt name first (path.take e) := by
  rw [Layout.isAt, Layout.isAt, Nat.add_assoc, List.take_length_add_append, Nat.add_comm 1,
    List.take_succ_cons, Place.get?_fill_append]
  simp [Node.get?, Node.children]

/-- The boundary of the loop whose marker is in the first node is that node. -/
theorem boundaryDepth?_fill {parent : String} {path : Path}
    (hp : place.path = [] ∨ place.name = parent) (h : StandsFor layout parent first path) :
    layout.boundaryDepth? (place.fill (before ++ first :: following))
      (place.path ++ before.length :: path) = some (place.path.length + 1) := by
  have hin : ∀ d, layout.IsInnermostBlock first path d →
      layout.IsInnermostBlock (place.fill (before ++ first :: following))
        (place.path ++ before.length :: path) (place.path.length + 1 + d) := by
    intro d ⟨hlt, hb, hdeeper⟩
    refine ⟨by simp only [List.length_append, List.length_cons]; omega, by rwa [isAt_fill], ?_⟩
    intro e h1 h2
    obtain ⟨k, rfl⟩ : ∃ k, e = place.path.length + 1 + k := ⟨e - (place.path.length + 1), by omega⟩
    rw [isAt_fill]
    exact hdeeper k (by omega) (by simp only [List.length_append, List.length_cons] at h2; omega)
  rcases h with ⟨hb, hc⟩ | ⟨hrow, hcell, hb⟩
  · rw [Layout.boundaryDepth?, Layout.blockDepth?_eq (by omega) (hin 0 hb), Option.map_some,
      Nat.add_zero, if_neg]
    -- a block deep enough to be promoted stands in an element named `parent`
    rcases hp with hp | hp
    · simp [hp]
    · simp [Layout.isAt, Place.get?_fill, Node.isElement, Node.name?, hp, hc]
  · have h1 := isAt_fill layout.cell place before following first path 1
    have h0 := isAt_fill layout.row place before following first path 0
    rw [Layout.boundaryDepth?, Layout.blockDepth?_eq (by omega) (hin 2 hb), Option.map_some,
      if_pos]
    · rfl
    · rw [show place.path.length + 1 + 2 - 1 = place.path.length + 1 + 1 by omega,
        show place.path.length + 1 + 2 - 2 = place.path.length + 1 + 0 by omega, h1, h0, hcell]
      simp [Layout.isAt, Node.get?, hrow]

/-- The run of siblings that is the first loop of a tree. -/
theorem find?_fill {parent : String} {header : Header} {k : Nat} (hv : place.Visible)
    (hl : NoStart (place.leading layout.textContainer))
    (hb : NoStart (Node.childTexts layout.textContainer place.name 0 before))
    (hp : place.path = [] ∨ place.name = parent) (hf : first.isFragment = false)
    (hc : layout.textContainer ≠ some place.name) (ho : Opens layout parent header first)
    (hk : endIndex? layout.textContainer 1 following = some k) :
    Site.find? layout (place.fill (before ++ first :: following)) =
      .ok (some ⟨header, place.path, before.length, following.take k⟩) := by
  obtain ⟨path, s, ⟨tb, ta, ht, hplain⟩, hs, -, hstands⟩ := ho
  have htb : NoStart (tb.map fun x => (before.length :: x.1, x.2)) :=
    NoStart.map (fun x hx => (hplain x (List.mem_append_left _ hx)).1) fun _ => rfl
  have hstart : firstStart? layout.textContainer (place.fill (before ++ first :: following)) =
      some (place.path ++ before.length :: path, header) := by
    obtain ⟨pre, hpre, rest, hrest⟩ : ∃ pre, NoStart pre ∧ ∃ rest,
        (place.fill (before ++ first :: following)).texts layout.textContainer =
          pre ++ (place.path ++ before.length :: path, s) :: rest := by
      refine ⟨_, hl.append ((hb.map (f := place.locate) fun _ => rfl).append
        (htb.map (f := place.locate) fun _ => rfl)), ?_⟩
      rw [Place.texts_fill hv, Node.childTexts_append, Node.childTexts, hf,
        if_neg Bool.false_ne_true, Node.textsUnder_eq_texts hc, ht]
      simp only [Nat.zero_add, List.map_append, List.map_cons, List.append_assoc, List.cons_append]
      exact ⟨_, rfl⟩
    exact firstStart?_eq hrest hpre hs
  rw [Site.find?, hstart]
  simp only
  rw [boundaryDepth?_fill hp hstands]
  have hdrop : (before ++ first :: following).drop (before.length + 1) = following := by
    rw [List.drop_append]
    simp
  have hindex : (place.path ++ before.length :: path).getD place.path.length 0 = before.length := by
    simp
  simp only [Nat.add_sub_cancel, List.take_left', hindex, Place.get?_fill, Option.map_some,
    Option.getD_some, Node.children, hdrop, hk]

end Find

end Loop

end FormLetter
