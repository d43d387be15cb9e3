import FormLetter.Proofs.Disk.Items

/-!
# Where paths lead

A path leads to the location that its steps name (`eq_of_follow`), if all that it passes are
directories (`follow_of_isDirectory`). So it leads to the same on a disk with as many directories
or more (`follow_of_le`). Making the directories of a path puts directories where nothing was, and
changes nothing else (`find?_of_makeSteps`).
-/

namespace FormLetter.Disk

variable {d d' : Disk} {l m t : Location} {ss : List String} {path : String}

def walk (l : Location) (step : String) : Location :=
  if step = ".." then l.dropLast else l ++ [step]

theorem follow_cons_eq_ok {step : String} : d.follow l (step :: ss) = .ok t ↔
    d.isDirectory l = true ∧ d.follow (walk l step) ss = .ok t := by
  rw [follow, walk, isDirectory_iff]
  split
  · rename_i h
    simp [h]
  · rename_i h
    simp [h]
  · rename_i h
    split <;> simp [h]

theorem follow_append (d : Disk) (l : Location) (ss ts : List String) :
    d.follow l (ss ++ ts) = .ok t ↔ ∃ m, d.follow l ss = .ok m ∧ d.follow m ts = .ok t := by
  induction ss generalizing l with
  | nil => simp [follow]
  | cons step ss ih =>
    rw [List.cons_append, follow_cons_eq_ok, ih]
    simp only [follow_cons_eq_ok]
    constructor
    · rintro ⟨hd, m, hm, ht⟩
      exact ⟨m, ⟨hd, hm⟩, ht⟩
    · rintro ⟨m, ⟨hd, hm⟩, ht⟩
      exact ⟨hd, m, hm, ht⟩

theorem eq_of_follow (h : d.follow l ss = .ok t) : t = ss.foldl walk l := by
  induction ss generalizing l with
  | nil => exact (Except.ok.inj h).symm
  | cons step ss ih => exact ih (follow_cons_eq_ok.1 h).2

theorem foldl_walk (h : ".." ∉ ss) (l : Location) : ss.foldl walk l = l ++ ss := by
  induction ss generalizing l with
  | nil => exact (List.append_nil l).symm
  | cons step ss ih =>
    obtain ⟨hstep, hss⟩ := not_or.1 (mt List.mem_cons.2 h)
    rw [List.foldl_cons, ih hss, walk, if_neg (Ne.symm hstep), List.append_assoc,
      List.singleton_append]

theorem mem_of_mem_foldl_walk {name : String} (h : name ∈ ss.foldl walk l) :
    name ∈ l ∨ name ∈ ss ∧ name ≠ ".." := by
  induction ss generalizing l with
  | nil => exact .inl h
  | cons step ss ih =>
    rcases ih h with h | ⟨h, hne⟩
    · rw [walk] at h
      split at h
      · exact .inl (List.dropLast_subset l h)
      · rename_i hstep
        rcases List.mem_append.1 h with h | h
        · exact .inl h
        · obtain rfl := List.mem_singleton.1 h
          exact .inr ⟨List.mem_cons_self .., hstep⟩
    · exact .inr ⟨List.mem_cons_of_mem _ h, hne⟩

theorem isProper_foldl_walk (hl : IsProper l) (hss : ∀ s ∈ ss, s = ".." ∨ IsPart s) :
    IsProper (ss.foldl walk l) := by
  intro name hname
  rcases mem_of_mem_foldl_walk hname with h | ⟨h, hne⟩
  · exact hl name h
  · exact (hss name h).resolve_left hne

/-- What a path leads to on one disk it leads to on another, if what it passes are directories
there. -/
theorem follow_of_le
    (hd : ∀ m, d.isDirectory m = true → (∀ n ∈ m, n ∈ l ∨ n ∈ ss.dropLast) →
      d'.isDirectory m = true)
    (h : d.follow l ss = .ok t) : d'.follow l ss = .ok t := by
  induction ss generalizing l with
  | nil => exact h
  | cons step ss ih =>
    obtain ⟨hl, h⟩ := follow_cons_eq_ok.1 h
    refine follow_cons_eq_ok.2 ⟨hd l hl fun n hn => .inl hn, ?_⟩
    cases ss with
    | nil => exact h
    | cons next ss =>
      refine ih (fun m hm hn => hd m hm fun n hnm => ?_) h
      rw [List.dropLast_cons_cons, List.mem_cons]
      rcases hn n hnm with hn | hn
      · have hwalk : n ∈ [step].foldl walk l := hn
        rcases mem_of_mem_foldl_walk hwalk with hn | ⟨hn, -⟩
        · exact .inl hn
        · exact .inr (.inl (List.mem_singleton.1 hn))
      · exact .inr (.inr hn)

/-- A path of names leads on, if it passes directories. -/
theorem follow_of_isDirectory (hup : ".." ∉ ss)
    (h : ∀ m, l <+: m → m <+: l ++ ss → m ≠ l ++ ss → d.isDirectory m = true) :
    d.follow l ss = .ok (l ++ ss) := by
  induction ss generalizing l with
  | nil => rw [follow, List.append_nil]
  | cons step ss ih =>
    obtain ⟨hstep, hss⟩ := not_or.1 (mt List.mem_cons.2 hup)
    have hl : d.isDirectory l = true := h l (List.prefix_refl l) (List.prefix_append ..) (by simp)
    have hwalk : walk l step = l ++ [step] := if_neg (Ne.symm hstep)
    rw [List.append_cons] at h ⊢
    rw [follow_cons_eq_ok, hwalk]
    exact ⟨hl, ih hss fun m hm hm' hne => h m ((List.prefix_append ..).trans hm) hm' hne⟩

/-! ## Paths -/

/-- Where a path starts. -/
def start (d : Disk) (path : String) : Location := if isAbsolute path then [] else d.working

theorem locate_eq_ok : d.locate path = .ok t ↔
    path ≠ "" ∧ d.follow (d.start path) (steps path) = .ok t := by
  rw [locate, start]
  split
  · simp [*]
  · simp [*]

theorem start_of_isAbsolute (h : isAbsolute path = true) : d.start path = [] := if_pos h

theorem follow_congr (h : ∀ l, d'.find? l = d.find? l) (l : Location) (ss : List String) :
    d'.follow l ss = d.follow l ss := by
  induction ss generalizing l with
  | nil => rfl
  | cons step ss ih => rw [follow, follow, h, ih, ih]

theorem locate_congr (hworking : d'.working = d.working) (h : ∀ l, d'.find? l = d.find? l) :
    d'.locate path = d.locate path := by
  rw [locate, locate, hworking, follow_congr h]

theorem locate_of_le (hworking : d'.working = d.working)
    (hd : ∀ m, d.isDirectory m = true → d'.isDirectory m = true) (h : d.locate path = .ok t) :
    d'.locate path = .ok t := by
  obtain ⟨hne, hfollow⟩ := locate_eq_ok.1 h
  refine locate_eq_ok.2 ⟨hne, ?_⟩
  have hstart : d'.start path = d.start path := by rw [start, start, hworking]
  rw [hstart]
  exact follow_of_le (fun m hm _ => hd m hm) hfollow

/-- The names on the working directory and on the directory for temporary files can be names. -/
structure Rooted (d : Disk) : Prop where
  working : IsProper d.working
  temporary : IsProper d.temporary

theorem Rooted.start (h : d.Rooted) (path : String) : IsProper (d.start path) := by
  rw [Disk.start]
  split
  · exact List.forall_mem_nil _
  · exact h.working

theorem Rooted.isProper_of_locate (h : d.Rooted) (ht : d.locate path = .ok t) : IsProper t := by
  rw [eq_of_follow (locate_eq_ok.1 ht).2]
  exact isProper_foldl_walk (h.start path) fun _ => mem_steps

theorem eq_of_locate_pathOf (hl : IsProper l) (h : d.locate (pathOf l) = .ok t) : t = l := by
  have hup : ".." ∉ l := fun hm => (hl _ hm).2.2.1 rfl
  have hfollow := (locate_eq_ok.1 h).2
  rw [start_of_isAbsolute (isAbsolute_pathOf l), steps_pathOf hl] at hfollow
  rw [eq_of_follow hfollow, foldl_walk hup, List.nil_append]

theorem eq_of_locate_join {part : String} (hl : IsProper l) (hup : ".." ∉ steps part)
    (h : d.locate (join (pathOf l) part) = .ok t) : t = l ++ steps part := by
  have hup' : ".." ∉ l := fun hm => (hl _ hm).2.2.1 rfl
  have hfollow := (locate_eq_ok.1 h).2
  rw [start_of_isAbsolute (isAbsolute_join (isAbsolute_pathOf l) part),
    steps_join_pathOf hl] at hfollow
  rw [eq_of_follow hfollow, foldl_walk (by simp [hup, hup']), List.nil_append]

/-- What a path that can mean a file leads to is in a directory, with the last part of the path as
its name. -/
theorem exists_of_locate (h : endsInDirectory path = false) (ht : d.locate path = .ok t) :
    ∃ parent, d.isDirectory parent = true ∧
      d.follow (d.start path) (steps path).dropLast = .ok parent ∧
        t = parent ++ [lastPart path] := by
  obtain ⟨front, -, -, hsteps⟩ := exists_parent? h
  have hfollow := (locate_eq_ok.1 ht).2
  rw [hsteps] at hfollow ⊢
  rw [List.dropLast_concat]
  obtain ⟨parent, hparent, hlast⟩ := (follow_append ..).1 hfollow
  obtain ⟨hdirectory, hlast⟩ := follow_cons_eq_ok.1 hlast
  refine ⟨parent, hdirectory, hparent, ?_⟩
  rw [← Except.ok.inj hlast, walk, if_neg (isPart_lastPart h).2.2.1]

theorem makeSteps_cons_eq_ok {step : String} : d.makeSteps l (step :: ss) = .ok d' ↔
    (step = ".." ∨ d.isDirectory (l ++ [step]) = true) ∧ d.makeSteps (walk l step) ss = .ok d' ∨
      step ≠ ".." ∧ d.find? (l ++ [step]) = none ∧
        (d.put (l ++ [step]) .directory).makeSteps (l ++ [step]) ss = .ok d' := by
  rw [makeSteps, walk, isDirectory_iff]
  by_cases hstep : step = ".."
  · simp [hstep]
  · rw [if_neg hstep, if_neg hstep]
    simp only [hstep, false_or, ne_eq, not_false_eq_true, true_and]
    split
    · rename_i h
      simp [h]
    · rename_i h
      simp [h]
    · rename_i h
      simp [h]

/-- Only directories are made, on the way. -/
theorem find?_of_makeSteps (h : d.makeSteps l ss = .ok d') (m : Location) :
    d'.find? m = d.find? m ∨
      d.find? m = none ∧ d'.find? m = some .directory ∧ ∃ ts, ts <+: ss ∧ m = ts.foldl walk l := by
  induction ss generalizing d l with
  | nil =>
    cases h
    exact .inl rfl
  | cons step ss ih =>
    rcases makeSteps_cons_eq_ok.1 h with ⟨-, h⟩ | ⟨hstep, hnone, h⟩
    · refine (ih h).imp_right fun ⟨hm, hm', ts, hts, hway⟩ => ⟨hm, hm', step :: ts, ?_, hway⟩
      exact List.cons_prefix_cons.2 ⟨rfl, hts⟩
    · have hwalk : walk l step = l ++ [step] := if_neg hstep
      by_cases hm : m = l ++ [step]
      · subst hm
        refine .inr ⟨hnone, ?_, [step], List.cons_prefix_cons.2 ⟨rfl, List.nil_prefix⟩, hwalk.symm⟩
        have hput := find?_put_self (l := l ++ [step]) (by simp) d .directory
        rcases ih h with hsame | ⟨hno, -⟩
        · exact hsame.trans hput
        · cases hput.symm.trans hno
      · rcases ih h with hsame | ⟨hno, hm', ts, hts, hway⟩
        · exact .inl (hsame.trans (find?_put_of_ne hm d _))
        · refine .inr ⟨(find?_put_of_ne hm d _).symm.trans hno, hm', step :: ts, ?_, ?_⟩
          · exact List.cons_prefix_cons.2 ⟨rfl, hts⟩
          · rw [List.foldl_cons, hwalk]
            exact hway

theorem makeSteps_fields (h : d.makeSteps l ss = .ok d') :
    d'.working = d.working ∧ d'.temporary = d.temporary ∧ d'.faults = d.faults := by
  induction ss generalizing d l with
  | nil =>
    cases h
    exact ⟨rfl, rfl, rfl⟩
  | cons step ss ih =>
    rcases makeSteps_cons_eq_ok.1 h with ⟨-, h⟩ | ⟨-, -, h⟩
    · exact ih h
    · exact (ih h :)

theorem isDirectory_of_makeSteps (h : d.makeSteps l ss = .ok d') (hm : d.isDirectory m = true) :
    d'.isDirectory m = true := by
  rw [isDirectory_iff] at hm ⊢
  rcases find?_of_makeSteps h m with hsame | ⟨-, hm', -⟩
  · exact hsame.trans hm
  · exact hm'

theorem isDirectory_of_follow (h : d.follow l ss = .ok t) (ht : d.isDirectory t = true) :
    d.isDirectory l = true := by
  cases ss with
  | nil =>
    cases h
    exact ht
  | cons step ss => exact (follow_cons_eq_ok.1 h).1

theorem makeSteps_of_follow (h : d.follow l ss = .ok t) (ht : d.isDirectory t = true) :
    d.makeSteps l ss = .ok d := by
  induction ss generalizing l with
  | nil => rfl
  | cons step ss ih =>
    obtain ⟨-, h⟩ := follow_cons_eq_ok.1 h
    refine makeSteps_cons_eq_ok.2 (.inl ⟨?_, ih h⟩)
    by_cases hstep : step = ".."
    · exact .inl hstep
    · have hnext := isDirectory_of_follow h ht
      rw [walk, if_neg hstep] at hnext
      exact .inr hnext

theorem exists_of_makeSteps {step : String} (h : d.makeSteps l ss = .ok d') (hs : step ∈ ss)
    (hup : step ≠ "..") : ∃ m, d'.find? m = some .directory ∧ step ∈ m := by
  induction ss generalizing d l with
  | nil => cases hs
  | cons first ss ih =>
    rcases List.mem_cons.1 hs with rfl | hs
    · refine ⟨l ++ [step], isDirectory_iff.1 ?_, by simp⟩
      rcases makeSteps_cons_eq_ok.1 h with ⟨hd, h⟩ | ⟨-, -, h⟩
      · exact isDirectory_of_makeSteps h (hd.resolve_left hup)
      · exact isDirectory_of_makeSteps h (isDirectory_iff.2 (find?_put_self (by simp) d _))
    · rcases makeSteps_cons_eq_ok.1 h with ⟨-, h⟩ | ⟨-, -, h⟩
      · exact ih h hs
      · exact ih h hs

end FormLetter.Disk
