import FormLetter.Archive.Error
import FormLetter.Archive.Octets

/-!
# The end of an archive

An archive ends in a record that says where its directory is, and a comment. Other data may stand
before the archive: places in it count from a `base`, which is found by looking for the first entry
of the directory. Large archives have a second, wide end before the end, and a locator that says
where the wide end is.
-/

namespace FormLetter.Archive

/-- The signatures of the parts of an archive. -/
def recordSignature : Nat := 0x04034b50
def entrySignature : Nat := 0x02014b50
def endSignature : Nat := 0x06054b50
def wideEndSignature : Nat := 0x06064b50
def locatorSignature : Nat := 0x07064b50

/-- The sizes of these parts without names and comments. -/
def recordSize : Nat := 30
def entrySize : Nat := 46
def endSize : Nat := 22
def wideEndSize : Nat := 56
def locatorSize : Nat := 20

def wideCount : Nat := 0xFFFF
def wideNumber : Nat := 0xFFFFFFFF

/-- Where a directory is, and how many entries it has. -/
structure DirectoryPlace where
  base : Nat
  start : Nat
  count : Nat
  deriving DecidableEq, Repr

/-- What the end of an archive tells: the directory, the numbers of the disks that the end and the
directory are on, and a rule that it breaks itself. -/
structure Ending where
  directory : DirectoryPlace
  disk : Nat
  directoryDisk : Nat
  broken : Option Rule := none
  deriving DecidableEq, Repr

/-- The places of a signature in a range of some data. -/
def placesOf (data : ByteArray) (signature start stop : Nat) : List Nat :=
  (List.range' start (stop - start)).filter fun place =>
    decide (place + 4 ≤ stop) && numberAt data place 4 == signature

/-- The wide end at a place, if the locator at another says that it is `offset` after the base and
is on this disk. -/
def wideEndingAt (data : ByteArray) (locator offset disk place : Nat) :
    Except ArchiveError Ending := do
  let size := numberAt data (place + 4) 8
  let directoryDisk := numberAt data (place + 20) 4
  let files := numberAt data (place + 32) 8
  let start := numberAt data (place + 48) 8
  if data.size < place + wideEndSize then throw .truncated
  if size + 12 < wideEndSize then throw (.invalid .wideEndSize)
  if locator < place + size + 12 then throw (.invalid .wideEndInside)
  if directoryDisk ≠ disk then throw (.invalid .wideEndDisk)
  if place + size + 12 ≠ locator then throw (.invalid .wideEndLength)
  if place < files * entrySize + start then throw (.invalid .roomForFiles)
  let base := place - offset
  return {
    directory := ⟨base, start + base, files⟩
    disk := numberAt data (place + 16) 4
    directoryDisk := directoryDisk
    broken :=
      if files < numberAt data (place + 24) 8 then some .filesOnDisk
      else if numberAt data (place + 12) 2 < numberAt data (place + 14) 2 then some .versionNeeded
      else none }

/-- The first wide end at one of some places, or what is wrong with the last of them. -/
def firstWideEnding (data : ByteArray) (locator offset disk : Nat) (trouble : ArchiveError) :
    List Nat → Except ArchiveError Ending
  | [] => .error trouble
  | place :: places =>
    match wideEndingAt data locator offset disk place with
    | .ok ending => .ok ending
    | .error trouble => firstWideEnding data locator offset disk trouble places

/-- What the locator at a place leads to. -/
def locatedEnding (data : ByteArray) (locator : Nat) : Except ArchiveError Ending := do
  let offset := numberAt data (locator + 8) 8
  if locator ≤ offset then throw (.invalid .wideEndBeforeLocator)
  if 1 < numberAt data (locator + 16) 4 then throw (.invalid .oneDisk)
  firstWideEnding data locator offset (numberAt data (locator + 4) 4) (.invalid .wideEndThere)
    (placesOf data wideEndSignature offset locator)

/-! ## The end -/

/-- What the end at a place tells on its own. -/
def plainEnding (data : ByteArray) (place : Nat) : Except ArchiveError Ending := do
  let offset := numberAt data (place + 16) 4
  let ending (base : Nat) : Ending := {
    directory := ⟨base, offset + base, numberAt data (place + 8) 2⟩
    disk := numberAt data (place + 4) 2
    directoryDisk := numberAt data (place + 6) 2 }
  if numberAt data (place + 10) 2 = 0 then return ending (place - offset)
  if place ≤ offset then throw (.invalid .directoryBeforeEnd)
  match placesOf data entrySignature offset place with
  | [] => throw (.invalid .directoryThere)
  | start :: _ => return ending (start - offset)

/-- What the end at a place tells. -/
def endingAt (data : ByteArray) (place : Nat) : Except ArchiveError Ending := do
  if data.size < place + endSize then throw .truncated
  if data.size < place + endSize + numberAt data (place + 20) 2 then
    throw (.invalid .commentInside)
  let wide := numberAt data (place + 10) 2 = wideCount ∨ numberAt data (place + 16) 4 = wideNumber
  let locator := place - locatorSize
  if wide ∧ locatorSize ≤ place ∧ numberAt data locator 4 = locatorSignature then
    locatedEnding data locator
  else plainEnding data place

end FormLetter.Archive
