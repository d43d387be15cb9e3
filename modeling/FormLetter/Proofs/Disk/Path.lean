import FormLetter.Disk.Basic
import FormLetter.Proofs.Text.Run

/-!
# Paths and locations

The steps of a path are names of files and directories, or lead up (`mem_steps`). The path of a
location has the names of the location as its steps (`steps_pathOf`), and joined paths take their
steps one after the other (`steps_join`). A path that can mean a file leads one step further than
its parent (`exists_parent?`).
-/

namespace FormLetter.Disk

def IsPart (name : String) : Prop :=
  name ≠ "" ∧ name ≠ "." ∧ name ≠ ".." ∧ '/' ∉ name.toList

instance (name : String) : Decidable (IsPart name) :=
  inferInstanceAs (Decidable (_ ∧ _))

/-- A location whose names all are names that a file or a directory may have. -/
def IsProper (l : Location) : Prop := ∀ n ∈ l, IsPart n

instance (l : Location) : Decidable (IsProper l) :=
  inferInstanceAs (Decidable (∀ n ∈ l, IsPart n))

theorem IsProper.append {l m : Location} (hl : IsProper l) (hm : IsProper m) :
    IsProper (l ++ m) :=
  List.forall_mem_append.2 ⟨hl, hm⟩

variable {cs ds : List Char}

theorem slashParts_eq (cs : List Char) : slashParts cs = cs.splitOn '/' := by
  induction cs with
  | nil => rfl
  | cons c cs ih =>
    rw [slashParts, ih]
    exact (Text.splitOn_cons '/' c cs).symm

theorem slashParts_ne_nil (cs : List Char) : slashParts cs ≠ [] := by
  rw [slashParts_eq]
  exact List.splitOn_ne_nil '/' cs

theorem slashParts_of_not_mem (h : '/' ∉ cs) : slashParts cs = [cs] := by
  rw [slashParts_eq]
  exact List.splitOn_eq_singleton h

theorem slashParts_append (cs ds : List Char) :
    slashParts (cs ++ '/' :: ds) = slashParts cs ++ slashParts ds := by
  rw [slashParts_eq, slashParts_eq, slashParts_eq, List.splitOn_append_cons_self]

theorem not_mem_of_mem_slashParts {part : List Char} (h : part ∈ slashParts cs) : '/' ∉ part :=
  Text.not_mem_of_mem_splitOn (slashParts_eq cs ▸ h)

def stepsOf (cs : List Char) : List String :=
  ((slashParts cs).map String.ofList).filter fun part => part ≠ "" && part ≠ "."

theorem steps_eq (path : String) : steps path = stepsOf path.toList := rfl

theorem stepsOf_append (cs ds : List Char) :
    stepsOf (cs ++ '/' :: ds) = stepsOf cs ++ stepsOf ds := by
  rw [stepsOf, slashParts_append, List.map_append, List.filter_append]
  rfl

theorem stepsOf_of_not_mem (h : '/' ∉ cs) :
    stepsOf cs = [String.ofList cs].filter fun part => part ≠ "" && part ≠ "." := by
  rw [stepsOf, slashParts_of_not_mem h]
  rfl

theorem steps_of_isPart {name : String} (h : IsPart name) : steps name = [name] := by
  rw [steps_eq, stepsOf_of_not_mem h.2.2.2, String.ofList_toList]
  simp [h.1, h.2.1]

theorem mem_steps {path step : String} (h : step ∈ steps path) : step = ".." ∨ IsPart step := by
  obtain ⟨hm, hne⟩ := List.mem_filter.1 h
  obtain ⟨part, hpart, rfl⟩ := List.mem_map.1 hm
  simp only [ne_eq, Bool.and_eq_true, decide_eq_true_eq] at hne
  refine (Decidable.em (String.ofList part = "..")).imp_right fun hup => ⟨hne.1, hne.2, hup, ?_⟩
  rw [String.toList_ofList]
  exact not_mem_of_mem_slashParts hpart

theorem steps_join (path part : String) : steps (join path part) = steps path ++ steps part := by
  have hchars : (join path part).toList = path.toList ++ '/' :: part.toList := by simp [join]
  rw [steps_eq, hchars, stepsOf_append]
  rfl

theorem isAbsolute_join {path : String} (h : isAbsolute path = true) (part : String) :
    isAbsolute (join path part) = true := by
  rw [isAbsolute, beq_iff_eq] at h ⊢
  simp [join, List.head?_append, h]

theorem isAbsolute_pathOf (l : Location) : isAbsolute (pathOf l) = true := by
  simp [isAbsolute, pathOf]

theorem steps_intercalate {l : Location} (h : IsProper l) : steps ("/".intercalate l) = l := by
  induction l with
  | nil => decide
  | cons n l ih =>
    obtain ⟨hn, hl⟩ := List.forall_mem_cons.1 h
    cases l with
    | nil => rw [String.intercalate_singleton, steps_of_isPart hn]
    | cons m l =>
      rw [String.intercalate_cons_cons, ← join, steps_join, ih hl, steps_of_isPart hn]
      rfl

theorem steps_pathOf {l : Location} (h : IsProper l) : steps (pathOf l) = l := by
  have hjoin : pathOf l = join "" ("/".intercalate l) := by simp [pathOf, join]
  rw [hjoin, steps_join, steps_intercalate h]
  rfl

theorem steps_join_pathOf {l : Location} (h : IsProper l) (part : String) :
    steps (join (pathOf l) part) = l ++ steps part := by
  rw [steps_join, steps_pathOf h]

theorem exists_slashParts_append (hcs : '/' ∉ cs) (ds : List Char) :
    ∃ part parts, slashParts ds = part :: parts ∧
      slashParts (cs ++ ds) = (cs ++ part) :: parts := by
  obtain ⟨part, parts, hparts⟩ := List.exists_cons_of_ne_nil (slashParts_ne_nil ds)
  refine ⟨part, parts, hparts, ?_⟩
  induction cs with
  | nil => exact hparts
  | cons c cs ih =>
    obtain ⟨hc, hcs⟩ := not_or.1 (mt List.mem_cons.2 hcs)
    rw [List.cons_append, slashParts, if_neg (Ne.symm hc), ih hcs]
    rfl

theorem isPart_append {name rest : String} {c : Char} (hhead : name.toList.head? = some c)
    (hc : c ≠ '.') (hname : '/' ∉ name.toList) (hrest : '/' ∉ rest.toList) :
    IsPart (name ++ rest) := by
  obtain ⟨cs, hcs⟩ := List.head?_eq_some_iff.1 hhead
  have hchars : (name ++ rest).toList = c :: (cs ++ rest.toList) := by simp [hcs]
  rw [hcs] at hname
  simp only [IsPart, ne_eq, ← String.toList_inj, hchars]
  refine ⟨by simp, by simp [hc], by simp [hc], ?_⟩
  rw [← List.cons_append, List.mem_append, not_or]
  exact ⟨hname, hrest⟩

/-- With a name in front that does not start with a dot, a path still does not lead up. -/
theorem steps_append {name path : String} {c : Char} (hhead : name.toList.head? = some c)
    (hc : c ≠ '.') (hname : '/' ∉ name.toList) (hup : ".." ∉ steps path) :
    steps (name ++ path) ≠ [] ∧ ".." ∉ steps (name ++ path) := by
  obtain ⟨part, parts, hparts, happend⟩ := exists_slashParts_append hname path.toList
  obtain ⟨cs, hcs⟩ := List.head?_eq_some_iff.1 hhead
  have hfirst : ∀ s : String, s.toList.head? = some '.' ∨ s.toList = [] →
      String.ofList (name.toList ++ part) ≠ s := by
    rintro s hs rfl
    rw [String.toList_ofList, hcs] at hs
    rcases hs with hs | hs
    · exact hc (Option.some.inj hs)
    · cases hs
  have hsteps : steps (name ++ path) = String.ofList (name.toList ++ part) ::
      (parts.map String.ofList).filter fun part => part ≠ "" && part ≠ "." := by
    rw [steps_eq, String.toList_append, stepsOf, happend, List.map_cons, List.filter_cons_of_pos]
    rw [Bool.and_eq_true]
    exact ⟨decide_eq_true (hfirst "" (.inr rfl)), decide_eq_true (hfirst "." (.inl rfl))⟩
  rw [hsteps]
  refine ⟨List.cons_ne_nil _ _, fun hm => ?_⟩
  rcases List.mem_cons.1 hm with hm | hm
  · exact hfirst ".." (.inl rfl) hm.symm
  · refine hup (List.mem_filter.2 ⟨?_, (List.mem_filter.1 hm).2⟩)
    rw [hparts, List.map_cons]
    exact List.mem_cons_of_mem _ (List.mem_filter.1 hm).1

/-! ## The path of the parent -/

theorem stepsOf_dropTrail (cs : List Char) :
    stepsOf (dropTrail cs).reverse = stepsOf cs.reverse := by
  fun_induction dropTrail cs with
  | case1 => rfl
  | case2 cs _ ih =>
    rw [ih, List.reverse_cons, stepsOf_append]
    simp [stepsOf, slashParts]
  | case3 cs ih =>
    have hdots : ('.' :: '/' :: cs).reverse = cs.reverse ++ '/' :: ['.'] := by simp
    rw [ih, hdots, List.reverse_cons, stepsOf_append, stepsOf_append]
    rfl
  | case4 => rfl

theorem getLast?_dropTrail (cs : List Char) : (dropTrail cs).getLast? = cs.getLast? := by
  fun_induction dropTrail cs with
  | case1 => rfl
  | case2 cs hne ih =>
    obtain ⟨c, ds, rfl⟩ := List.exists_cons_of_ne_nil hne
    rw [ih, List.getLast?_cons_cons]
  | case3 cs ih => rw [ih, List.getLast?_cons_cons]
  | case4 => rfl

theorem exists_eq_append (cs : List Char) : ∃ front last, cs = front ++ last ∧ '/' ∉ last ∧
    cs.reverse.dropWhile (· != '/') = front.reverse ∧ (front = [] ∨ ∃ ds, front = ds ++ ['/']) := by
  refine ⟨(cs.reverse.dropWhile (· != '/')).reverse, (cs.reverse.takeWhile (· != '/')).reverse,
    ?_, ?_, ?_, ?_⟩
  · rw [← List.reverse_append, List.takeWhile_append_dropWhile, List.reverse_reverse]
  · intro hm
    have hall := List.all_eq_true.1 List.all_takeWhile _ (List.mem_reverse.1 hm)
    cases hall
  · rw [List.reverse_reverse]
  · have hhead := List.head?_dropWhile_not (· != '/') cs.reverse
    cases hdrop : cs.reverse.dropWhile (· != '/') with
    | nil => exact .inl rfl
    | cons c ds =>
      rw [hdrop] at hhead
      obtain rfl : c = '/' := by simpa using hhead
      exact .inr ⟨ds.reverse, List.reverse_cons⟩

theorem lastPart_eq {path : String} {front last : List Char} (hpath : path.toList = front ++ last)
    (hlast : '/' ∉ last) (hfront : front = [] ∨ ∃ ds, front = ds ++ ['/']) :
    lastPart path = String.ofList last := by
  rcases hfront with rfl | ⟨ds, rfl⟩
  · rw [lastPart, hpath, List.nil_append, slashParts_of_not_mem hlast]
    rfl
  · rw [lastPart, hpath, List.append_assoc, List.singleton_append, slashParts_append,
      slashParts_of_not_mem hlast, List.getLast?_concat]
    rfl

theorem stepsOf_append_last {front last : List Char}
    (hfront : front = [] ∨ ∃ ds, front = ds ++ ['/']) :
    stepsOf (front ++ last) = stepsOf front ++ stepsOf last := by
  rcases hfront with rfl | ⟨ds, rfl⟩
  · rfl
  · have hslash : ds ++ ['/'] ++ last = ds ++ '/' :: last := by simp
    rw [hslash, stepsOf_append, stepsOf_append]
    simp [stepsOf, slashParts]

theorem dropTrail_cons {c : Char} (hc : c ≠ '/') (hdot : c = '.' → cs.head? ≠ some '/') :
    dropTrail (c :: cs) = c :: cs := by
  rw [dropTrail]
  · exact fun h => absurd (List.cons.inj h).1 hc
  · exact fun ds h => absurd (List.cons.inj h).1 hc
  · rintro ds h
    obtain ⟨rfl, rfl⟩ := List.cons.inj h
    exact hdot rfl rfl

theorem isPart_lastPart {path : String} (h : endsInDirectory path = false) :
    IsPart (lastPart path) := by
  obtain ⟨front, last, hpath, hlast, -, hfront⟩ := exists_eq_append path.toList
  simp only [endsInDirectory, Bool.or_eq_false_iff, decide_eq_false_iff_not] at h
  refine ⟨h.1.1, h.1.2, h.2, ?_⟩
  rw [lastPart_eq hpath hlast hfront, String.toList_ofList]
  exact hlast

/-- A path that can mean a file leads one step further than its parent. -/
theorem exists_parent? {path : String} (h : endsInDirectory path = false) :
    ∃ parent, parent? path = some parent ∧ isAbsolute parent = isAbsolute path ∧
      steps path = steps parent ++ [lastPart path] := by
  have hpart := isPart_lastPart h
  obtain ⟨front, last, hpath, hlast, hdrop, hfront⟩ := exists_eq_append path.toList
  have hname := lastPart_eq hpath hlast hfront
  rw [hname] at hpart
  obtain ⟨c, cs, hrev⟩ : ∃ c cs, last.reverse = c :: cs := by
    refine List.exists_cons_of_ne_nil fun hnil => hpart.1 ?_
    rw [List.reverse_eq_nil_iff.1 hnil]
  have hchars : path.toList.reverse = c :: (cs ++ front.reverse) := by
    rw [hpath, List.reverse_append, hrev, List.cons_append]
  have hc : c ≠ '/' := by
    rintro rfl
    exact hlast (List.mem_reverse.1 (hrev ▸ List.mem_cons_self ..))
  have hdot : c = '.' → (cs ++ front.reverse).head? ≠ some '/' := by
    rintro rfl hslash
    cases cs with
    | nil =>
      refine hpart.2.1 ?_
      rw [← List.reverse_reverse last, hrev]
      rfl
    | cons d cs =>
      obtain rfl : d = '/' := Option.some.inj hslash
      exact hlast (List.mem_reverse.1 (hrev ▸ List.mem_cons_of_mem _ (List.mem_cons_self ..)))
  refine ⟨String.ofList (dropTrail front.reverse).reverse, ?_, ?_, ?_⟩
  · rw [hchars] at hdrop
    rw [parent?, hchars, dropTrail_cons hc hdot]
    split
    · rename_i hnil
      cases hnil
    · rename_i hslash
      exact absurd (List.cons.inj hslash).1 hc
    · rw [hdrop]
  · rw [isAbsolute, isAbsolute, String.toList_ofList, List.head?_reverse, getLast?_dropTrail,
      List.getLast?_reverse, hpath]
    cases front with
    | nil =>
      have hhead : last.head? ≠ some '/' := fun hm => hlast (List.mem_of_head? hm)
      rw [List.nil_append, beq_eq_false_iff_ne.2 hhead]
      rfl
    | cons d front => rfl
  · have hstep : stepsOf last = [String.ofList last] := by
      rw [← steps_of_isPart hpart, steps_eq, String.toList_ofList]
    rw [steps_eq, steps_eq, String.toList_ofList, stepsOf_dropTrail, List.reverse_reverse, hpath,
      stepsOf_append_last hfront, hname, hstep]

end FormLetter.Disk
