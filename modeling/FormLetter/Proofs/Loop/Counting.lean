import FormLetter.Proofs.Loop.Group
import FormLetter.Proofs.Loop.Marker
import FormLetter.Proofs.Tree.Fragment
import Mathlib.Data.List.Forall2

/-!
# The end of a loop among its siblings

A sibling opens a loop if a text of it has a loop start, and closes one if a text of it has a loop
end. By that count a loop ends at the first sibling where as many have closed one as have opened one
(`ClosedAt`). `endIndex?` goes from text to text and counts each that has a marker
(`endIndex?_eq_some_iff`). The two agree where every sibling is `Orderly`, and each sibling that is
not makes them differ among some that are (`agreesAt_iff_orderly`).
-/

namespace FormLetter.Loop

/-- How many texts have a loop start. -/
def startsIn (texts : List String) : Nat := texts.countP hasStart

/-- How many texts have a loop end. -/
def endsIn (texts : List String) : Nat := texts.countP hasEnd

theorem countP_cons_toNat {α : Type} (p : α → Bool) (x : α) (xs : List α) :
    (x :: xs).countP p = xs.countP p + (p x).toNat := by
  rw [List.countP_cons]
  cases p x <;> rfl

theorem toNat_any {α : Type} (p : α → Bool) (xs : List α) :
    (xs.any p).toNat = min (xs.countP p) 1 := by
  induction xs with
  | nil => rfl
  | cons x xs ih =>
    rw [List.any_cons, countP_cons_toNat]
    cases p x with
    | false => simpa using ih
    | true => simp

theorem startsIn_cons (s : String) (texts : List String) :
    startsIn (s :: texts) = startsIn texts + (hasStart s).toNat :=
  countP_cons_toNat hasStart s texts

theorem endsIn_cons (s : String) (texts : List String) :
    endsIn (s :: texts) = endsIn texts + (hasEnd s).toNat :=
  countP_cons_toNat hasEnd s texts

theorem depthAfter?_cons {d : Nat} (hd : 0 < d) (s : String) (texts : List String) :
    depthAfter? d (s :: texts) =
      if d + (hasStart s).toNat = (hasEnd s).toNat then none
      else depthAfter? (d + (hasStart s).toNat - (hasEnd s).toNat) texts := by
  have hne : d ≠ 0 := Nat.ne_of_gt hd
  have hlt : ¬d + 1 ≤ 1 := by omega
  rw [depthAfter?]
  cases hasStart s with
  | true => cases hasEnd s <;> simp [hne, hlt]
  | false =>
    cases hasEnd s with
    | true =>
      by_cases h : d = 1
      · simp [h]
      · have hle : ¬d ≤ 1 := by omega
        simp [h, hle]
    | false => simp [hne]

/-- Loops are open after some texts if in no front of these the ends catch up with the starts and
the loops that were open before. -/
theorem depthAfter?_eq_some_iff {d e : Nat} (hd : 0 < d) {texts : List String} :
    depthAfter? d texts = some e ↔
      (∀ front, front <+: texts → endsIn front < d + startsIn front) ∧
        e + endsIn texts = d + startsIn texts := by
  induction texts generalizing d with
  | nil =>
    simp only [depthAfter?, Option.some.injEq, List.prefix_nil, forall_eq, startsIn, endsIn,
      List.countP_nil]
    omega
  | cons s texts ih =>
    have hs := Bool.toNat_le (hasStart s)
    have he := Bool.toNat_le (hasEnd s)
    rw [depthAfter?_cons hd, startsIn_cons, endsIn_cons]
    split
    · rename_i hzero
      constructor
      · intro h
        cases h
      · rintro ⟨hfront, -⟩
        have := hfront [s] (List.prefix_append [s] texts)
        rw [startsIn_cons, endsIn_cons] at this
        simp only [startsIn, endsIn, List.countP_nil] at this
        omega
    · rename_i hzero
      rw [ih (by omega)]
      refine and_congr ⟨fun h front hf => ?_, fun h front hf => ?_⟩ (by omega)
      · rcases List.prefix_cons_iff.1 hf with rfl | ⟨front, rfl, hfront⟩
        · simpa [startsIn, endsIn] using hd
        · have := h front hfront
          rw [startsIn_cons, endsIn_cons]
          omega
      · have := h (s :: front) (List.prefix_cons_iff.2 (.inr ⟨front, rfl, hf⟩))
        rw [startsIn_cons, endsIn_cons] at this
        omega

theorem depthAfter?_eq_none_iff {d : Nat} (hd : 0 < d) {texts : List String} :
    depthAfter? d texts = none ↔
      ∃ front, front <+: texts ∧ d + startsIn front ≤ endsIn front := by
  constructor
  · intro h
    refine Classical.byContradiction fun hfront => ?_
    simp only [not_exists, not_and, Nat.not_le] at hfront
    have hle := hfront texts (List.prefix_refl texts)
    have hsome : depthAfter? d texts = some (d + startsIn texts - endsIn texts) :=
      (depthAfter?_eq_some_iff hd).2 ⟨hfront, by omega⟩
    rw [h] at hsome
    cases hsome
  · rintro ⟨front, hf, hle⟩
    cases hx : depthAfter? d texts with
    | none => rfl
    | some e =>
      have := ((depthAfter?_eq_some_iff hd).1 hx).1 front hf
      omega

/-- The texts count as one text with all their markers: they have none, or start one loop, or end
one, or start and end as many, none ended before one of them is started. -/
def OrderlyTexts (texts : List String) : Prop :=
  (startsIn texts = 0 ∧ endsIn texts ≤ 1) ∨ (startsIn texts ≤ 1 ∧ endsIn texts = 0) ∨
    (startsIn texts = endsIn texts ∧ ∀ front, front <+: texts → endsIn front ≤ startsIn front)

theorem depthAfter?_of_orderlyTexts {d : Nat} (hd : 0 < d) {texts : List String}
    (h : OrderlyTexts texts) : depthAfter? d texts =
      if d + (texts.any hasStart).toNat = (texts.any hasEnd).toNat then none
      else some (d + (texts.any hasStart).toNat - (texts.any hasEnd).toNat) := by
  have hs : (texts.any hasStart).toNat = min (startsIn texts) 1 := toNat_any hasStart texts
  have he : (texts.any hasEnd).toNat = min (endsIn texts) 1 := toNat_any hasEnd texts
  rw [hs, he]
  split
  · rename_i hzero
    exact (depthAfter?_eq_none_iff hd).2 ⟨texts, List.prefix_refl texts, by omega⟩
  · rename_i hzero
    refine (depthAfter?_eq_some_iff hd).2 ⟨fun front hf => ?_, ?_⟩
    · have hle : endsIn front ≤ endsIn texts := hf.sublist.countP_le
      rcases h with ⟨h1, h2⟩ | ⟨h1, h2⟩ | ⟨h1, h2⟩
      · omega
      · omega
      · have := h2 front hf
        omega
    · rcases h with ⟨h1, h2⟩ | ⟨h1, h2⟩ | ⟨h1, h2⟩ <;> omega

/-! ## Counting siblings -/

section Siblings

variable (container : Option String)

/-- The scanned texts of some nodes, finished output passed over. -/
def textsOf (ns : List Node) : List String :=
  (ns.filter fun n => !n.isFragment).flatMap (Node.strings container)

/-- A node opens a loop if a scanned text of it has a loop start. Finished output does not. -/
def opensLoop (n : Node) : Bool := !n.isFragment && (n.strings container).any hasStart

/-- A node closes a loop if a scanned text of it has a loop end. Finished output does not. -/
def closesLoop (n : Node) : Bool := !n.isFragment && (n.strings container).any hasEnd

/-- Up to the node at `i` as many close a loop as there are loops, `depth` from before and those
that are opened. -/
def Balances (depth : Nat) (ns : List Node) (i : Nat) : Prop :=
  i < ns.length ∧ depth + (ns.take (i + 1)).countP (opensLoop container) =
    (ns.take (i + 1)).countP (closesLoop container)

/-- A loop that starts right before the sibling at `start` is closed at the one at `i`: of those
from `start` to `i` one more closes a loop than opens one. -/
def ClosedAt (siblings : List Node) (start i : Nat) : Prop :=
  start ≤ i ∧ i < siblings.length ∧
    1 + ((siblings.take (i + 1)).drop start).countP (opensLoop container) =
      ((siblings.take (i + 1)).drop start).countP (closesLoop container)

instance (siblings : List Node) (start i : Nat) :
    Decidable (ClosedAt container siblings start i) :=
  inferInstanceAs (Decidable (_ ∧ _))

/-- The sibling at `i` is taken for the end of the loop exactly if the loop is closed there and not
before. -/
def AgreesAt (siblings : List Node) (start i : Nat) : Prop :=
  (endIndex? container 1 (siblings.drop start)).map (start + ·) = some i ↔
    ClosedAt container siblings start i ∧ ∀ j < i, ¬ClosedAt container siblings start j

/-- A node counts as one for the texts that it has, if it is not finished output. -/
def Orderly (n : Node) : Prop := n.isFragment = true ∨ OrderlyTexts (n.strings container)

end Siblings

variable {container : Option String} {depth : Nat} {n : Node} {ns : List Node}

theorem textsOf_cons (container : Option String) (n : Node) (ns : List Node) :
    textsOf container (n :: ns) =
      (if n.isFragment then [] else n.strings container) ++ textsOf container ns := by
  rw [textsOf, List.filter_cons]
  cases n.isFragment <;> rfl

theorem endIndex?_cons_of_none {ns : List Node} (hf : n.isFragment = false)
    (h : depthAfter? depth (n.strings container) = none) :
    endIndex? container depth (n :: ns) = some 0 := by
  rw [Node.strings] at h
  simp only [endIndex?, hf, Bool.false_eq_true, ↓reduceIte, h]

theorem endIndex?_cons_of_some {ns : List Node} {after : Nat} (hf : n.isFragment = false)
    (h : depthAfter? depth (n.strings container) = some after) :
    endIndex? container depth (n :: ns) = (endIndex? container after ns).map (· + 1) := by
  rw [Node.strings] at h
  simp only [endIndex?, hf, Bool.false_eq_true, ↓reduceIte, h]

/-- The loops end at a node if its texts end the last of them, and those before do not. -/
theorem endIndex?_eq_some_iff_depthAfter? {i : Nat} : endIndex? container depth ns = some i ↔
    i < ns.length ∧ depthAfter? depth (textsOf container (ns.take (i + 1))) = none ∧
      depthAfter? depth (textsOf container (ns.take i)) ≠ none := by
  induction ns generalizing depth i with
  | nil => simp [endIndex?]
  | cons n ns ih =>
    by_cases hf : n.isFragment = true
    · rw [endIndex?, if_pos hf]
      cases i with
      | zero => simp [textsOf, hf, depthAfter?]
      | succ i => simp [textsOf_cons, hf, ih]
    · have hf' : n.isFragment = false := Bool.eq_false_iff.2 hf
      cases hd : depthAfter? depth (n.strings container) with
      | none =>
        rw [endIndex?_cons_of_none hf' hd]
        cases i with
        | zero => simp [textsOf, hf', hd, depthAfter?]
        | succ i => simp [textsOf_cons, hf', depthAfter?_append, hd]
      | some after =>
        rw [endIndex?_cons_of_some hf' hd]
        cases i with
        | zero => simp [textsOf, hf', hd]
        | succ i => simp [textsOf_cons, hf', depthAfter?_append, hd, ih]

/-- A loop ends at the node where the loop ends among the texts first outnumber the loop starts. -/
theorem endIndex?_eq_some_iff {i : Nat} : endIndex? container 1 ns = some i ↔
    i < ns.length ∧
      (∃ front, front <+: textsOf container (ns.take (i + 1)) ∧
        startsIn front < endsIn front) ∧
      ∀ front, front <+: textsOf container (ns.take i) → endsIn front ≤ startsIn front := by
  rw [endIndex?_eq_some_iff_depthAfter?, Ne, depthAfter?_eq_none_iff Nat.one_pos,
    depthAfter?_eq_none_iff Nat.one_pos]
  simp only [not_exists, not_and, Nat.add_comm 1, Nat.add_one_le_iff, Nat.not_lt]

theorem balances_zero : Balances container depth (n :: ns) 0 ↔
    depth + (opensLoop container n).toNat = (closesLoop container n).toNat := by
  simp [Balances, countP_cons_toNat]

theorem balances_succ {i : Nat}
    (h : (closesLoop container n).toNat ≤ depth + (opensLoop container n).toNat) :
    Balances container depth (n :: ns) (i + 1) ↔
      Balances container (depth + (opensLoop container n).toNat - (closesLoop container n).toNat)
        ns i := by
  simp only [Balances, List.length_cons, Nat.add_lt_add_iff_right, List.take_succ_cons,
    countP_cons_toNat]
  omega

/-- An orderly node changes the depth by what it opens and closes. -/
theorem endIndex?_cons (hd : 0 < depth) (h : Orderly container n) :
    endIndex? container depth (n :: ns) =
      if depth + (opensLoop container n).toNat = (closesLoop container n).toNat then some 0
      else (endIndex? container
        (depth + (opensLoop container n).toNat - (closesLoop container n).toNat) ns).map
          (· + 1) := by
  by_cases hf : n.isFragment = true
  · have hne : depth ≠ 0 := Nat.ne_of_gt hd
    simp [endIndex?, opensLoop, closesLoop, hf, hne]
  · have hdepth := depthAfter?_of_orderlyTexts hd (h.resolve_left hf)
    simp only [Bool.not_eq_true] at hf
    simp only [opensLoop, closesLoop, hf, Bool.not_false, Bool.true_and]
    split at hdepth
    · rename_i hz
      rw [endIndex?_cons_of_none hf hdepth, if_pos hz]
    · rename_i hz
      rw [endIndex?_cons_of_some hf hdepth, if_neg hz]

/-- Among orderly nodes loops end where the count of nodes says. -/
theorem endIndex?_eq_some_iff_balances {i : Nat} (hd : 0 < depth)
    (h : ∀ m ∈ ns.take (i + 1), Orderly container m) :
    endIndex? container depth ns = some i ↔
      Balances container depth ns i ∧ ∀ j < i, ¬Balances container depth ns j := by
  induction ns generalizing depth i with
  | nil => simp [endIndex?, Balances]
  | cons n ns ih =>
    rw [List.take_succ_cons, List.forall_mem_cons] at h
    obtain ⟨hn, hns⟩ := h
    have hc := Bool.toNat_le (closesLoop container n)
    rw [endIndex?_cons hd hn]
    by_cases hz : depth + (opensLoop container n).toNat = (closesLoop container n).toNat
    · have h0 : Balances container depth (n :: ns) 0 := balances_zero.2 hz
      rw [if_pos hz]
      cases i with
      | zero => simp [h0]
      | succ i =>
        constructor
        · intro h
          cases h
        · rintro ⟨-, hmin⟩
          exact absurd h0 (hmin 0 (Nat.succ_pos i))
    · have h0 : ¬Balances container depth (n :: ns) 0 := fun h => hz (balances_zero.1 h)
      rw [if_neg hz, Option.map_eq_some_iff]
      cases i with
      | zero => simp [h0]
      | succ i =>
        rw [balances_succ (by omega)]
        constructor
        · rintro ⟨k, hk, he⟩
          cases he
          obtain ⟨hb, hmin⟩ := (ih (by omega) hns).1 hk
          refine ⟨hb, fun j hj hbj => ?_⟩
          cases j with
          | zero => exact h0 hbj
          | succ j => exact hmin j (by omega) ((balances_succ (by omega)).1 hbj)
        · rintro ⟨hb, hmin⟩
          refine ⟨i, (ih (by omega) hns).2 ⟨hb, fun j hj hbj => ?_⟩, rfl⟩
          exact hmin (j + 1) (by omega) ((balances_succ (by omega)).2 hbj)

/-! ## From a sibling on -/

theorem closedAt_add_iff {siblings : List Node} {start i : Nat} :
    ClosedAt container siblings start (start + i) ↔
      Balances container 1 (siblings.drop start) i := by
  rw [ClosedAt, Balances, List.drop_take, List.length_drop,
    show start + i + 1 - start = i + 1 by omega]
  refine ⟨fun ⟨_, hlt, he⟩ => ⟨by omega, he⟩, fun ⟨hlt, he⟩ => ⟨by omega, by omega, he⟩⟩

theorem agreesAt_add_iff {siblings : List Node} {start i : Nat} :
    AgreesAt container siblings start (start + i) ↔
      (endIndex? container 1 (siblings.drop start) = some i ↔
        Balances container 1 (siblings.drop start) i ∧
          ∀ j < i, ¬Balances container 1 (siblings.drop start) j) := by
  have hindex : (endIndex? container 1 (siblings.drop start)).map (start + ·) = some (start + i) ↔
      endIndex? container 1 (siblings.drop start) = some i := by
    cases endIndex? container 1 (siblings.drop start) <;> simp
  have hbefore : (∀ j < start + i, ¬ClosedAt container siblings start j) ↔
      ∀ j < i, ¬Balances container 1 (siblings.drop start) j := by
    constructor
    · intro h j hj hb
      exact h (start + j) (by omega) (closedAt_add_iff.2 hb)
    · intro h j hj hclosed
      obtain ⟨k, rfl⟩ := Nat.exists_eq_add_of_le hclosed.1
      exact h k (by omega) (closedAt_add_iff.1 hclosed)
  rw [AgreesAt, hindex, closedAt_add_iff, hbefore]

theorem agreesAt_of_orderly {siblings : List Node} {start i : Nat}
    (h : ∀ m ∈ (siblings.take (i + 1)).drop start, Orderly container m) :
    AgreesAt container siblings start i := by
  by_cases hi : start ≤ i
  · obtain ⟨k, rfl⟩ := Nat.exists_eq_add_of_le hi
    rw [List.drop_take, show start + k + 1 - start = k + 1 by omega] at h
    exact agreesAt_add_iff.2 (endIndex?_eq_some_iff_balances Nat.one_pos h)
  · -- neither can the end be before the start
    constructor
    · intro he
      obtain ⟨k, -, rfl⟩ := Option.map_eq_some_iff.1 he
      omega
    · rintro ⟨⟨hle, -⟩, -⟩
      exact absurd hle hi

theorem opensLoop_eq_true_iff (hf : n.isFragment = false) :
    opensLoop container n = true ↔ 0 < startsIn (n.strings container) := by
  simp [opensLoop, hf, startsIn, List.countP_pos_iff]

theorem closesLoop_eq_true_iff (hf : n.isFragment = false) :
    closesLoop container n = true ↔ 0 < endsIn (n.strings container) := by
  simp [closesLoop, hf, endsIn, List.countP_pos_iff]

def signpost (container : Option String) (s : String) : Node :=
  .element (container.getD "p") [] [.text s]

section Signpost

variable (hc : container ≠ some Node.fragmentName) (s : String)
include hc

theorem isFragment_signpost : (signpost container s).isFragment = false := by
  refine Node.isFragment_eq_false (fun hname => ?_) _ _
  cases container with
  | none => exact absurd hname (by decide)
  | some c => exact hc (congrArg some hname)

theorem strings_signpost : (signpost container s).strings container = [s] := by
  cases container with
  | none => rfl
  | some c => simp [signpost, Node.strings, Node.texts, Node.textsUnder, Node.childTexts,
      Node.isSelected, Node.isFragment, Node.isElement, Node.name?]

theorem opensLoop_signpost : opensLoop container (signpost container s) = hasStart s := by
  simp [opensLoop, isFragment_signpost hc, strings_signpost hc]

theorem closesLoop_signpost : closesLoop container (signpost container s) = hasEnd s := by
  simp [closesLoop, isFragment_signpost hc, strings_signpost hc]

theorem orderly_signpost (h : hasStart s = false ∨ hasEnd s = false) :
    Orderly container (signpost container s) := by
  refine .inr ?_
  rw [strings_signpost hc, OrderlyTexts, startsIn_cons, endsIn_cons]
  have hs := Bool.toNat_le (hasStart s)
  have he := Bool.toNat_le (hasEnd s)
  rcases h with h | h
  · exact .inl ⟨by rw [h]; rfl, by simpa [endsIn] using he⟩
  · exact .inr (.inl ⟨by simpa [startsIn] using hs, by rw [h]; rfl⟩)

end Signpost

theorem agreesAt_zero_iff {i : Nat} : AgreesAt container ns 0 i ↔
    (endIndex? container 1 ns = some i ↔
      Balances container 1 ns i ∧ ∀ j < i, ¬Balances container 1 ns j) := by
  have h : AgreesAt container ns 0 (0 + i) ↔ _ := agreesAt_add_iff
  rwa [Nat.zero_add, List.drop_zero] at h

/-- Where the ends get ahead of the starts within a node, a loop ends there that should not. -/
theorem exists_not_agreesAt_of_lt (hc : container ≠ some Node.fragmentName)
    (hf : n.isFragment = false) {front : List String} (hfront : front <+: n.strings container)
    (hlt : startsIn front < endsIn front) (htexts : ¬OrderlyTexts (n.strings container)) :
    ∃ before i, (∀ m ∈ before, Orderly container m) ∧
      ¬AgreesAt container (before ++ [n]) 0 i := by
  have hends : endsIn front ≤ endsIn (n.strings container) := hfront.sublist.countP_le
  have hclose : closesLoop container n = true := (closesLoop_eq_true_iff hf).2 (by omega)
  by_cases hs : startsIn (n.strings container) = 0
  · -- two loop ends, of which one should count, and two open loops
    have hopen : opensLoop container n = false := by
      rw [← Bool.not_eq_true, opensLoop_eq_true_iff hf]
      omega
    have htwo : 2 ≤ endsIn (n.strings container) := by
      refine Classical.byContradiction fun h => htexts (.inl ⟨hs, by omega⟩)
    have hstart : Orderly container (signpost container "{foreach a as b}") :=
      orderly_signpost hc _ (.inr (by decide))
    have hopens := opensLoop_signpost hc "{foreach a as b}"
    have hcloses := closesLoop_signpost hc "{foreach a as b}"
    rw [show hasStart "{foreach a as b}" = true by decide] at hopens
    rw [show hasEnd "{foreach a as b}" = false by decide] at hcloses
    have hnone : depthAfter? 2 (n.strings container) = none :=
      (depthAfter?_eq_none_iff Nat.two_pos).2
        ⟨n.strings container, List.prefix_refl _, by omega⟩
    refine ⟨[signpost container "{foreach a as b}"], 1, by simpa using hstart, fun h => ?_⟩
    have hone : endIndex? container 1 (signpost container "{foreach a as b}" :: [n]) = _ :=
      endIndex?_cons Nat.one_pos hstart
    rw [hopens, hcloses, if_neg (by decide)] at hone
    have hb := ((agreesAt_zero_iff.1 h).1 (hone.trans
      (congrArg (Option.map (· + 1)) (endIndex?_cons_of_none hf hnone)))).1
    rw [List.singleton_append, balances_succ (by rw [hcloses]; exact Nat.zero_le _),
      balances_zero, hopens, hcloses, hopen, hclose] at hb
    exact absurd hb (by decide)
  · -- a loop end that the loop starts of the node should make up for
    have hopen : opensLoop container n = true := (opensLoop_eq_true_iff hf).2 (by omega)
    have hnone : depthAfter? 1 (n.strings container) = none :=
      (depthAfter?_eq_none_iff Nat.one_pos).2 ⟨front, hfront, by omega⟩
    refine ⟨[], 0, List.forall_mem_nil _, fun h => ?_⟩
    have hb := ((agreesAt_zero_iff.1 h).1 (endIndex?_cons_of_none hf hnone)).1
    rw [List.nil_append, balances_zero, hopen, hclose] at hb
    exact absurd hb (by decide)

theorem endIndex?_replicate {post : Node} (hp : Orderly container post)
    (hopens : opensLoop container post = false) (hcloses : closesLoop container post = true)
    {k : Nat} (hk : k < depth) : endIndex? container depth (List.replicate k post) = none := by
  induction k generalizing depth with
  | zero => rfl
  | succ k ih =>
    have hne : depth ≠ 1 := by omega
    rw [List.replicate_succ, endIndex?_cons (by omega) hp, hopens, hcloses, if_neg (by simpa),
      ih (by simp; omega)]
    rfl

/-- Where the starts of a node outnumber its ends by more than they should, the loop does not end
where it should. -/
theorem exists_not_agreesAt_of_le (hc : container ≠ some Node.fragmentName)
    (hf : n.isFragment = false)
    (hfront : ∀ front, front <+: n.strings container → endsIn front ≤ startsIn front)
    (htexts : ¬OrderlyTexts (n.strings container)) :
    ∃ after i, (∀ m ∈ after, Orderly container m) ∧ ¬AgreesAt container (n :: after) 0 i := by
  have hle := hfront _ (List.prefix_refl _)
  have hne : startsIn (n.strings container) ≠ endsIn (n.strings container) := fun h =>
    htexts (.inr (.inr ⟨h, hfront⟩))
  have hmany : ¬(startsIn (n.strings container) ≤ 1 ∧ endsIn (n.strings container) = 0) := fun h =>
    htexts (.inr (.inl h))
  have hopen : opensLoop container n = true := (opensLoop_eq_true_iff hf).2 (by omega)
  have hclose : (closesLoop container n).toNat = min (endsIn (n.strings container)) 1 := by
    rw [closesLoop, hf, Bool.not_false, Bool.true_and, toNat_any, endsIn]
  have hdepth : depthAfter? 1 (n.strings container) =
      some (1 + startsIn (n.strings container) - endsIn (n.strings container)) :=
    (depthAfter?_eq_some_iff Nat.one_pos).2
      ⟨fun front h => by have := hfront front h; omega, by omega⟩
  have hpost : Orderly container (signpost container "{/foreach}") :=
    orderly_signpost hc _ (.inl (by decide))
  have hopens := opensLoop_signpost hc "{/foreach}"
  have hcloses := closesLoop_signpost hc "{/foreach}"
  rw [show hasStart "{/foreach}" = false by decide] at hopens
  rw [show hasEnd "{/foreach}" = true by decide] at hcloses
  -- as many loop ends as should do for the loop and what the node leaves open
  generalize hk : 2 - (closesLoop container n).toNat = k
  have hb : ∀ j, Balances container 1 (n :: List.replicate k (signpost container "{/foreach}")) j ↔
      j = k := fun j => by
    simp only [Balances, List.length_cons, List.length_replicate, List.take_succ_cons,
      List.take_replicate, countP_cons_toNat, List.countP_replicate, hopens, hcloses, hopen,
      Bool.false_eq_true, ↓reduceIte, Bool.toNat_true]
    omega
  refine ⟨List.replicate k (signpost container "{/foreach}"), k, ?_, fun h => ?_⟩
  · intro m hm
    rw [List.eq_of_mem_replicate hm]
    exact hpost
  · have hend := (agreesAt_zero_iff.1 h).2
      ⟨(hb k).2 rfl, fun j hj hbj => Nat.ne_of_lt hj ((hb j).1 hbj)⟩
    rw [endIndex?_cons_of_some hf hdepth,
      endIndex?_replicate hpost hopens hcloses (by omega)] at hend
    cases hend

/-- A sibling that is not orderly is not counted as one among all others. -/
theorem exists_not_agreesAt (h : ¬Orderly container n) :
    ∃ before after i, (∀ m ∈ before ++ after, Orderly container m) ∧
      ¬AgreesAt container (before ++ n :: after) 0 i := by
  obtain ⟨hf, htexts⟩ := not_or.1 h
  rw [Bool.not_eq_true] at hf
  have hc : container ≠ some Node.fragmentName := by
    rintro rfl
    refine htexts (.inl ?_)
    rw [Node.strings, Node.texts, Node.textsUnder_fragmentName (by simp) n hf]
    exact ⟨rfl, Nat.zero_le 1⟩
  by_cases hfront : ∀ front, front <+: n.strings container → endsIn front ≤ startsIn front
  · obtain ⟨after, i, hafter, hi⟩ := exists_not_agreesAt_of_le hc hf hfront htexts
    exact ⟨[], after, i, hafter, hi⟩
  · simp only [Classical.not_forall, Nat.not_le] at hfront
    obtain ⟨front, hpre, hlt⟩ := hfront
    obtain ⟨before, i, hbefore, hi⟩ := exists_not_agreesAt_of_lt hc hf hpre hlt htexts
    exact ⟨before, [], i, by rwa [List.append_nil], hi⟩

/-! ## Divided texts -/

/-- The scanned texts of `m` are those of `n`, each divided into one or more, outside its markers:
where the whole has a marker, so has a piece. -/
structure Divides (container : Option String) (n m : Node) : Prop where
  isFragment_eq : m.isFragment = n.isFragment
  strings_eq : ∃ parts : List (List String), m.strings container = parts.flatten ∧
    List.Forall₂ (fun s pieces => String.join pieces = s ∧
      (hasStart s = true → pieces.any hasStart = true) ∧
      (hasEnd s = true → pieces.any hasEnd = true)) (n.strings container) parts

theorem isInfix_join {s : String} {pieces : List String} (h : s ∈ pieces) :
    s.toList <:+: (String.join pieces).toList := by
  obtain ⟨before, after, rfl⟩ := List.append_of_mem h
  refine ⟨(String.join before).toList, (String.join after).toList, ?_⟩
  simp [String.toList_join]

theorem any_flatten_of_forall₂ {p : String → Bool}
    (hp : ∀ {s t : String}, s.toList <:+: t.toList → p t = false → p s = false)
    {texts : List String} {parts : List (List String)}
    (h : List.Forall₂ (fun s pieces => String.join pieces = s ∧
      (p s = true → pieces.any p = true)) texts parts) :
    parts.flatten.any p = texts.any p := by
  induction h with
  | nil => rfl
  | @cons s pieces texts parts hs _ ih =>
    obtain ⟨rfl, hpieces⟩ := hs
    rw [List.flatten_cons, List.any_append, List.any_cons, ih]
    refine congrArg (· || _) (Bool.eq_iff_iff.2 ⟨fun hany => ?_, hpieces⟩)
    obtain ⟨s, hm, hs⟩ := List.any_eq_true.1 hany
    refine Classical.byContradiction fun hjoin => ?_
    rw [hp (isInfix_join hm) (Bool.eq_false_iff.2 hjoin)] at hs
    cases hs

theorem Divides.opensLoop_eq {m : Node} (h : Divides container n m) :
    opensLoop container m = opensLoop container n := by
  obtain ⟨parts, hm, hparts⟩ := h.strings_eq
  rw [opensLoop, opensLoop, h.isFragment_eq, hm, any_flatten_of_forall₂ hasStart_of_isInfix
    (hparts.imp fun _ _ h => ⟨h.1, h.2.1⟩)]

theorem Divides.closesLoop_eq {m : Node} (h : Divides container n m) :
    closesLoop container m = closesLoop container n := by
  obtain ⟨parts, hm, hparts⟩ := h.strings_eq
  rw [closesLoop, closesLoop, h.isFragment_eq, hm, any_flatten_of_forall₂ hasEnd_of_isInfix
    (hparts.imp fun _ _ h => ⟨h.1, h.2.2⟩)]

theorem endIndex?_of_divides {divided : List Node} (hd : 0 < depth)
    (h : List.Forall₂ (Divides container) ns divided) (hns : ∀ m ∈ ns, Orderly container m)
    (hdivided : ∀ m ∈ divided, Orderly container m) :
    endIndex? container depth divided = endIndex? container depth ns := by
  induction h generalizing depth with
  | nil => rfl
  | @cons n m ns divided hnm _ ih =>
    obtain ⟨hn, hns⟩ := List.forall_mem_cons.1 hns
    obtain ⟨hm, hdivided⟩ := List.forall_mem_cons.1 hdivided
    have hc := Bool.toNat_le (closesLoop container n)
    rw [endIndex?_cons hd hm, endIndex?_cons hd hn, hnm.opensLoop_eq, hnm.closesLoop_eq]
    split
    · rfl
    · rw [ih (by omega) hns hdivided]

/-- A loop ends at the sibling where the loop ends among the texts outnumber the loop starts. That
is the end by the count of siblings, each counted once however many of its texts have a marker, if
the siblings are orderly; and only orderly siblings are counted so among all others. Among these it
does not matter how texts are divided. -/
theorem agreesAt_iff_orderly (container : Option String) :
    (∀ siblings i, endIndex? container 1 siblings = some i ↔ i < siblings.length ∧
      (∃ front, front <+: textsOf container (siblings.take (i + 1)) ∧
        startsIn front < endsIn front) ∧
      ∀ front, front <+: textsOf container (siblings.take i) → endsIn front ≤ startsIn front) ∧
    (∀ siblings start i, (∀ n ∈ (siblings.take (i + 1)).drop start, Orderly container n) →
      AgreesAt container siblings start i) ∧
    (∀ n, Orderly container n ↔
      ∀ before after, (∀ m ∈ before ++ after, Orderly container m) →
        ∀ i, AgreesAt container (before ++ n :: after) 0 i) ∧
    ∀ siblings divided start, List.Forall₂ (Divides container) siblings divided →
      (∀ n ∈ siblings, Orderly container n) → (∀ n ∈ divided, Orderly container n) →
      endIndex? container 1 (divided.drop start) =
        endIndex? container 1 (siblings.drop start) := by
  refine ⟨fun siblings i => endIndex?_eq_some_iff, fun siblings start i h => agreesAt_of_orderly h,
    fun n => ⟨fun hn before after h i => ?_, fun h => ?_⟩, fun siblings divided start h hs hd => ?_⟩
  · refine agreesAt_of_orderly fun m hm => ?_
    rcases List.mem_append.1 (List.mem_of_mem_take (List.mem_of_mem_drop hm)) with hb | ha
    · exact h m (List.mem_append_left _ hb)
    · rcases List.mem_cons.1 ha with rfl | ha
      · exact hn
      · exact h m (List.mem_append_right _ ha)
  · refine Classical.byContradiction fun hn => ?_
    obtain ⟨before, after, i, hm, hi⟩ := exists_not_agreesAt hn
    exact hi (h before after hm i)
  · exact endIndex?_of_divides Nat.one_pos (List.forall₂_drop start h)
      (fun n hn => hs n (List.mem_of_mem_drop hn)) fun n hn => hd n (List.mem_of_mem_drop hn)

/-- A loop in a loop, its end, and the end of the loop around both. -/
theorem nested_agreesAt :
    let siblings := ["{foreach b as y}", "body", "{/foreach}", "{/foreach}"].map (signpost none)
    endIndex? none 1 siblings = some 3 ∧ ClosedAt none siblings 0 3 ∧
      ∀ j < 3, ¬ClosedAt none siblings 0 j := by
  intro siblings
  have hmarks : ∀ s ∈ ["{foreach b as y}", "body", "{/foreach}", "{/foreach}"],
      hasStart s = false ∨ hasEnd s = false := by
    decide
  have horderly : ∀ n ∈ siblings, Orderly none n := fun n hn => by
    obtain ⟨s, hs, rfl⟩ := List.mem_map.1 hn
    exact orderly_signpost (by simp) s (hmarks s hs)
  have hagrees := (agreesAt_iff_orderly none).2.1 siblings 0 3 fun n hn =>
    horderly n (List.mem_of_mem_take (List.mem_of_mem_drop hn))
  have hend : endIndex? none 1 siblings = some 3 := by decide
  exact ⟨hend, hagrees.1 (by rw [List.drop_zero, hend]; rfl)⟩

/-- Two loop starts in one paragraph open one loop if they are in one text, and two if the text is
divided between them, so that the loop around them is left open. -/
theorem dividedStarts_not_agreesAt :
    let starts (texts : List String) : Node :=
      .element "p" [] (texts.map fun s => .element "b" [] [.text s])
    let ends := [signpost none "{/foreach}", signpost none "{/foreach}"]
    let whole := starts ["{foreach b as y}{foreach c as z}"] :: ends
    let divided := starts ["{foreach b as y}", "{foreach c as z}"] :: ends
    ClosedAt none divided 0 2 ∧ (∀ j < 2, ¬ClosedAt none divided 0 j) ∧
      ¬AgreesAt none divided 0 2 ∧
      endIndex? none 1 divided = none ∧ endIndex? none 1 whole = some 2 := by
  intro starts ends whole divided
  have hclosed : ClosedAt none divided 0 2 ∧ ∀ j < 2, ¬ClosedAt none divided 0 j := by decide
  have hend : endIndex? none 1 divided = none := by decide
  refine ⟨hclosed.1, hclosed.2, fun h => ?_, hend, by decide⟩
  have hsome := h.2 hclosed
  rw [List.drop_zero, hend] at hsome
  cases hsome

end FormLetter.Loop
