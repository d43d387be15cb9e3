import FormLetter.Archive.Error
import FormLetter.Disk.Error

/-!
# Archives

An archive is a list of named entries, each with a compression method and a content. A content is
plain bytes or an archive again, so that what is inside of one can be looked at. The content of an
entry may also be one that cannot be read: damaged data, which can still be passed on as it is, or
data that is sealed, of which nothing is known but why.
-/

namespace FormLetter

namespace Archive

/-- How the content of an entry is kept. Other methods than the first two have a number only. -/
inductive Method where
  | stored
  | deflated
  | other (number : Nat)
  deriving DecidableEq, Repr, Inhabited

/-- An entry of an archive with contents of type `α`. -/
structure Entry (α : Type) where
  name : String
  method : Method
  content : α
  deriving DecidableEq, Repr

/-- Data as an archive keeps it, with the size and the checksum that it is said to have when it is
unpacked. -/
structure Packed where
  checksum : Nat
  size : Nat
  data : ByteArray

end Archive

/-- What a file or an entry of an archive holds. -/
inductive Content where
  | bytes (data : ByteArray)
  | archive (entries : List (Archive.Entry Content))
  | damaged (packed : Archive.Packed) (cause : Disk.OsError)
  | closed (cause : Archive.ArchiveError)

namespace Content

instance : Inhabited Content := ⟨.bytes .empty⟩

abbrev Entry := Archive.Entry Content

def ofText (s : String) : Content := .bytes s.toUTF8

end Content

end FormLetter
