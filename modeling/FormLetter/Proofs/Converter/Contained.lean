import FormLetter.Converter.Basic
import FormLetter.Proofs.Disk.Frame

/-!
# Converters that keep to their target

A converter is contained if all it changes is in the directory of the target that it is given,
whether it fails or not. The office converter is, if the program it runs changes nothing but what is
in the directory that the program is given (`contained_office`).
-/

namespace FormLetter

open FormLetter.Disk

/-- All that a conversion changes is in the directory of its target. -/
def Converter.Contained (c : Converter) : Prop :=
  ∀ (directory : Location) (source part : String), IsProper directory → ".." ∉ steps part →
    steps part ≠ [] →
      (c.convert source (join (pathOf directory) part)).ChangesOnly (Below directory)

/-- All that a program changes is in the directory that it is told to write to. -/
def Runner.Contained (run : Runner) : Prop :=
  ∀ (binary format imported : String) (directory : Location), IsProper directory →
    (run binary (Converter.officeArguments format imported (pathOf directory))).ChangesOnly
      (directory <+: ·)

theorem below_of_locate_join {directory t : Location} {part : String} {d : Disk}
    (hdirectory : IsProper directory) (hup : ".." ∉ steps part) (hne : steps part ≠ [])
    (ht : d.locate (join (pathOf directory) part) = .ok t) : Below directory t := by
  obtain rfl := eq_of_locate_join hdirectory hup ht
  exact ⟨List.prefix_append .., by simp [hne]⟩

namespace Converter

def importedName : String := documentName ++ ".docx"

theorem isPart_importedName : IsPart importedName := by decide

theorem contained_office {run : Runner} (h : run.Contained) (binary format : String) :
    (office run binary format).Contained := by
  intro directory source part hdirectory hup hne
  refine .withTemporaryDirectory fun l hl _ => ?_
  have himport : ∀ d : Disk, d.Rooted → ∀ t,
      d.locate (join (pathOf l) importedName) = .ok t → Below directory t ∨ l <+: t := by
    intro d _ t ht
    have hsteps := steps_of_isPart isPart_importedName
    have hup : ".." ∉ steps importedName := by
      rw [hsteps]
      decide
    exact .inr (below_of_locate_join hl hup (by simp [hsteps]) ht).1
  have htarget : ∀ d : Disk, d.Rooted → ∀ t,
      d.locate (join (pathOf directory) part) = .ok t → Below directory t ∨ l <+: t :=
    fun d _ t ht => .inl (below_of_locate_join hdirectory hup hne ht)
  refine .bind ((Task.changesOnly_copy himport).orError _) fun _ => ?_
  refine .bind (((h binary format _ l hl).mono fun _ => .inr).orError _) fun outcome => ?_
  refine .ite (.bind (.throw _) fun _ => ?_) ?_ <;>
    · refine .bind .get fun _ => .ite (.bind (.throw _) fun _ => ?_) ?_ <;>
        exact (Task.changesOnly_copy htarget).orError _

end Converter

end FormLetter
