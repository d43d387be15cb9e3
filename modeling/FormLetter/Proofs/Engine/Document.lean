import FormLetter.Proofs.Engine.Substitution
import FormLetter.Proofs.Tree.Container

/-!
# The texts of a document

Each text of a document comes from one that is left when the loops of some level are unrolled, the
template's or that of a loop body, by one replacement of its tags (`renders_of_mem_strings_expand`).
The invariant of a run is `Tidy`, which says of its tree where the texts in finished output come
from. A loop keeps it (`Tidy.loop`).
-/

namespace FormLetter

open FormLetter.Json FormLetter.Loop

/-- The text is one that is left of the tree, or of the body of one of its loops, when all loops are
unrolled, with its tags replaced. -/
inductive Engine.Renders (engine : Engine) : Node → Context → String → Prop where
  | text {root : Node} {ctx : Context} {s out : String} :
    Site.find? engine.layout root = .ok none → s ∈ root.strings engine.layout.textContainer →
    Tag.render engine.filters ctx s = .ok out → Renders engine root ctx out
  | copy {root : Node} {ctx : Context} {site : Site} {item : Value × Value} {out : String} :
    Site.find? engine.layout root = .ok (some site) → item ∈ Engine.items ctx site.header →
    Renders engine (.fragment site.body) (Engine.itemContext site.header ctx item) out →
    Renders engine root ctx out
  | rest {root : Node} {ctx : Context} {site : Site} {nodes : List Node} {out : String} :
    Site.find? engine.layout root = .ok (some site) →
    engine.output site.header site.body ctx = .ok nodes →
    Renders engine (site.replace nodes root) ctx out → Renders engine root ctx out

/-- A tree of a run, the children of which will stand in an element of the name `host`: as many
texts are scanned there as in the root, text containers hold texts only, and the texts of finished
output are as `P` says. -/
structure Tidy (P : String → Prop) (container : Option String) (host : String) (root : Node) :
    Prop where
  host_eq : ∀ name, root.name? = some name →
    Node.isSelected container (some host) = Node.isSelected container (some name)
  containers : ∀ c, container = some c → root.holdsOnlyTexts c = true
  finished : ∀ x ∈ Node.fragmentsAmong host root.children,
    ∀ s ∈ Node.childStrings container x.1 (Node.flattenChildren x.2), P s

namespace Tidy

variable {P : String → Prop} {container : Option String} {host : String} {place : Place}

theorem isSelected_hostOf {ns : List Node} (h : Tidy P container host (place.fill ns)) :
    Node.isSelected container (some (place.hostOf host)) =
      Node.isSelected container (some place.name) := by
  cases place with
  | root name attributes => exact h.host_eq name rfl
  | inside outer before name attributes after => rfl

/-- Both steps from a loop: into its body, and on to the tree with its output. -/
theorem loop {layout : Layout} {root : Node} {site : Site}
    (hc : layout.textContainer ≠ some Node.fragmentName)
    (h : Tidy P layout.textContainer host root)
    (hs : Site.find? layout root = .ok (some site)) :
    ∃ inner, Tidy P layout.textContainer inner (.fragment site.body) ∧
      ∀ output, (∀ s ∈ Node.childStrings layout.textContainer inner (Node.flattenChildren output),
          P s) → Tidy P layout.textContainer host (site.replace output root) := by
  obtain ⟨hbody, hrest⟩ := Site.holdsOnlyTexts hc h.containers hs
  obtain ⟨place, before, first, last, after, hv, -, -, hfirst, -, -, hroot, -, hreplace⟩ :=
    Site.exists_place_of_find? hs
  rw [hroot] at h
  have hne := Place.ne_of_holdsOnlyTexts hv hfirst h.containers
  refine ⟨place.hostOf host, ⟨?_, hbody, fun x hx => ?_⟩, fun output hout =>
    ⟨fun name hname => ?_, hrest output, fun x hx => ?_⟩⟩
  · rintro _ ⟨⟩
    rw [h.isSelected_hostOf, Node.isSelected_of_ne hne, Node.isSelected_of_ne hc]
  · exact h.finished x (Place.mem_fragments_of_body hv hx)
  · -- the root has the name that it had
    obtain ⟨rootName, rootAttributes, hfill⟩ := place.exists_fill_eq
    obtain ⟨children, hch⟩ := hfill (before ++ first :: (site.body ++ last :: after))
    obtain ⟨children', hch'⟩ := hfill (before ++ .fragment output :: after)
    refine h.host_eq name ?_
    rw [hreplace, hch'] at hname
    rwa [hch]
  · rw [hreplace] at hx
    rcases Place.mem_fragments_of_replace hv hx with rfl | hx
    · exact hout
    · exact h.finished x hx

end Tidy

namespace Engine

variable {engine : Engine} {ctx : Context} {P : String → Prop}

theorem forall_settle {name host : String} {ns ms : List Node}
    (hh : Node.isSelected engine.layout.textContainer (some host) =
      Node.isSelected engine.layout.textContainer (some name))
    (hfinished : ∀ x ∈ Node.fragmentsAmong host ns,
      ∀ s ∈ Node.childStrings engine.layout.textContainer x.1 (Node.flattenChildren x.2), P s)
    (hrender : ∀ s ∈ Node.childStrings engine.layout.textContainer name ns,
      ∀ out, Tag.render engine.filters ctx s = .ok out → P out)
    (h : engine.settle ctx name ns = .ok ms) {s : String}
    (hs : s ∈ Node.childStrings engine.layout.textContainer host ms) : P s := by
  obtain ⟨edited, he, rfl⟩ := settle_eq_ok.1 h
  rcases (Node.mem_childStrings_flattenChildren _ host s edited).1 hs with hs | ⟨x, hx, hs⟩
  · have hmap := Node.map_childStrings_editChildren he
    rw [Node.childStrings_congr hh] at hs
    obtain ⟨u, hu, hr⟩ := List.mem_map.1 (hmap ▸ List.mem_map_of_mem hs)
    exact hrender u hu s hr
  · have hfrag := Node.fragmentsAmong_editChildren (Tag.render engine.filters ctx)
      engine.layout.textContainer name host ns
    rw [he] at hfrag
    exact hfinished x (hfrag ▸ hx) s hs

/-- The texts among the children of what a tidy tree expands to. -/
theorem forall_children_expand (hc : engine.layout.textContainer ≠ some Node.fragmentName)
    {host : String} {root t : Node} (hi : Tidy P engine.layout.textContainer host root)
    (hrender : ∀ s, engine.Renders root ctx s → P s)
    (h : engine.expand root ctx = .ok t) {s : String}
    (hs : s ∈ Node.childStrings engine.layout.textContainer host t.children) : P s := by
  induction root using run_induction engine.layout generalizing ctx host t s with
  | failed root e he =>
    rw [expand_of_error he] at h
    cases h
  | done root hd =>
    rw [expand_of_none hd] at h
    cases root with
    | text u =>
      rw [substitute_text] at h
      split at h
      · obtain ⟨v, -, rfl⟩ := Except.map_eq_ok.1 h
        cases hs
      · cases h
        cases hs
    | element name attributes ns =>
      rw [substitute_element] at h
      obtain ⟨ms, hm, rfl⟩ := Except.map_eq_ok.1 h
      exact forall_settle (hi.host_eq name rfl) hi.finished
        (fun u hu out hr => hrender out (.text hd hu hr)) hm hs
  | loop root site hsite ihbody ihrest =>
    rw [expand_of_site hsite] at h
    obtain ⟨nodes, ho, h⟩ := Except.bind_eq_ok.1 h
    obtain ⟨inner, hbody, hrest⟩ := hi.loop hc hsite
    refine ihrest nodes (hrest nodes fun u hu => ?_)
      (fun v hv => hrender v (.rest hsite ho hv)) h hs
    rw [flattenChildren_output ho] at hu
    obtain ⟨item, hitem, copy, hcopy, hu⟩ := exists_copy_of_mem_output ho hu
    exact ihbody hbody (fun v hv => hrender v (.copy hsite hitem hv)) hcopy hu

/-- Where a text of a document comes from. Where only texts in a container count, it has to hold
texts only. -/
theorem renders_of_mem_strings_expand {template t : Node} (hf : template.hasFragment = false)
    (hc : ∀ c, engine.layout.textContainer = some c →
      c ≠ Node.fragmentName ∧ template.holdsOnlyTexts c = true)
    (h : engine.expand template ctx = .ok t) {s : String}
    (hs : s ∈ t.strings engine.layout.textContainer) : engine.Renders template ctx s := by
  cases template with
  | text u =>
    rcases hd : Site.find? engine.layout (.text u) with e | _ | site
    · rw [expand_of_error hd] at h
      cases h
    · rw [expand_of_none hd, substitute_text] at h
      by_cases hn : engine.layout.textContainer.isNone = true
      · rw [if_pos hn] at h
        obtain ⟨v, hr, rfl⟩ := Except.map_eq_ok.1 h
        rw [Node.strings_text, if_pos hn, List.mem_singleton] at hs
        rw [hs]
        exact .text hd (by rw [Node.strings_text, if_pos hn]; exact List.mem_singleton_self u) hr
      · rw [if_neg hn] at h
        cases h
        rw [Node.strings_text, if_neg hn] at hs
        cases hs
    · obtain ⟨place, _, _, _, _, _, _, _, _, _, hroot, _⟩ := (Site.find?_of hd).exists_place
      obtain ⟨name, attributes, hfill⟩ := place.exists_fill_eq
      obtain ⟨children, hch⟩ := hfill _
      rw [hch] at hroot
      cases hroot
  | element name attributes ns =>
    have hname := name?_expand h
    cases t with
    | text u => cases hname
    | element name' attributes' ms =>
      cases hname
      rw [Node.hasFragment, Bool.or_eq_false_iff] at hf
      refine forall_children_expand (fun e => (hc _ e).1 rfl)
        ⟨?_, fun c hcc => (hc c hcc).2, ?_⟩ (fun _ hr => hr) h hs
      · rintro _ ⟨⟩
        rfl
      · rw [Node.children, Node.fragmentsAmong_eq_nil _ ns hf.2]
        exact List.forall_mem_nil _

end Engine

end FormLetter
