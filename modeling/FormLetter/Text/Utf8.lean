/-!
# Octets as text

`decode` reads octets as UTF-8. What is not UTF-8 becomes replacement characters, one for each
longest piece that a character could start with.
-/

namespace FormLetter.Text.Utf8

def replacement : Char := '\ufffd'

/-- What the first octet of a character tells: its own bits, how many octets follow, and the range
of the first of these. -/
structure Lead where
  bits : Nat
  following : Nat
  least : Nat := 0x80
  greatest : Nat := 0xBF

def Lead.of? (b : Nat) : Option Lead :=
  if 0xC2 ≤ b ∧ b ≤ 0xDF then some { bits := b - 0xC0, following := 1 }
  else if b = 0xE0 then some { bits := 0, following := 2, least := 0xA0 }
  else if b = 0xED then some { bits := 0xD, following := 2, greatest := 0x9F }
  else if 0xE1 ≤ b ∧ b ≤ 0xEF then some { bits := b - 0xE0, following := 2 }
  else if b = 0xF0 then some { bits := 0, following := 3, least := 0x90 }
  else if 0xF1 ≤ b ∧ b ≤ 0xF3 then some { bits := b - 0xF0, following := 3 }
  else if b = 0xF4 then some { bits := 4, following := 3, greatest := 0x8F }
  else none

/-- The rest of a character after its first octet, and what follows it. The octets that do not fit
are left. -/
def continuation : Lead → Nat → List Nat → Char × List Nat
  | lead, 0, bs => (Char.ofNat lead.bits, bs)
  | _, _ + 1, [] => (replacement, [])
  | lead, n + 1, b :: bs =>
    if lead.least ≤ b ∧ b ≤ lead.greatest then
      continuation { bits := 64 * lead.bits + (b - 0x80), following := n } n bs
    else (replacement, b :: bs)

theorem continuation_le (lead : Lead) (n : Nat) (bs : List Nat) :
    (continuation lead n bs).2.length ≤ bs.length := by
  induction n generalizing lead bs with
  | zero => exact Nat.le_refl _
  | succ n ih =>
    cases bs with
    | nil => exact Nat.le_refl _
    | cons b bs =>
      rw [continuation]
      split
      · exact Nat.le_succ_of_le (ih _ bs)
      · exact Nat.le_refl _

def decodeNumbers : List Nat → List Char
  | [] => []
  | b :: bs =>
    if b < 0x80 then Char.ofNat b :: decodeNumbers bs
    else
      match Lead.of? b with
      | none => replacement :: decodeNumbers bs
      | some lead =>
        (continuation lead lead.following bs).1 ::
          decodeNumbers (continuation lead lead.following bs).2
termination_by bs => bs.length
decreasing_by
  · simp
  · simp
  · have := continuation_le lead lead.following bs
    simp only [List.length_cons]
    omega

def decode (data : ByteArray) : String :=
  String.ofList (decodeNumbers (data.toList.map UInt8.toNat))

end FormLetter.Text.Utf8
