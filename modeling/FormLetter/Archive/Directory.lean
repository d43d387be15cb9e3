import FormLetter.Archive.Basic
import FormLetter.Archive.Ending
import FormLetter.Archive.Name

/-!
# The directory of an archive

The directory has an entry for each record of the archive. What does not fit into the fields of an
entry stands in extra fields after its name: large sizes, names in Unicode, times, and how the
record is encrypted. Extra fields of other kinds are passed over, and so is what is left when the
octets end in the middle of one.
-/

namespace FormLetter.Archive

/-- An entry of a directory: the name, as octets too, the comment, and the record at a place.
`locked` is set for records that are encrypted without the flag that tells so. -/
structure DirectoryEntry where
  name : String
  nameOctets : Octets
  comment : String
  encrypted : Bool
  locked : Bool := false
  method : Nat
  checksum : Nat
  packedSize : Nat
  size : Nat
  place : Nat
  deriving DecidableEq, Repr

/-- What an extra field makes of an entry, and how many octets it has, none if they are not all
there. -/
abbrev FieldReader :=
  (length : Nat) → Octets → DirectoryEntry → Except ArchiveError (DirectoryEntry × Option Nat)

def field? (octets : Octets) (place width : Nat) : Option Nat :=
  if place + width ≤ octets.length then some (numberOf ((octets.drop place).take width)) else none

def passed (octets : Octets) (length : Nat) : Option Nat :=
  if length ≤ octets.length then some length else none

/-- A size, and where the next one stands. A wide size stands only for one that does not fit. -/
def wideSize? (all : Bool) (octets : Octets) (size place : Nat) : Option (Nat × Nat) :=
  if all || size == wideNumber then (field? octets place 8).map fun size => (size, place + 8)
  else some (size, place)

def readSizes : FieldReader := fun length octets e =>
  let all := decide (24 ≤ length)
  match wideSize? all octets e.size 0 with
  | none => .ok (e, none)
  | some (size, next) =>
    let e := { e with size := size }
    match wideSize? all octets e.packedSize next with
    | none => .ok (e, none)
    | some (packedSize, next) =>
      let e := { e with packedSize := packedSize }
      match wideSize? all octets e.place next with
      | none => .ok (e, none)
      | some (place, next) =>
        if length < next then .error (.invalid .wideSizes)
        else .ok ({ e with place := place }, passed octets length)

/-- A text in Unicode that stands for another one, which is known by its checksum. -/
def readUnicode (known : DirectoryEntry → Octets)
    (change : String → Octets → DirectoryEntry → DirectoryEntry) : FieldReader :=
  fun length octets e =>
    match field? octets 1 4 with
    | none => .ok (e, none)
    | some checked =>
      if length < 5 then .error (.invalid .unicodeLength)
      else if octets.length < length then .ok (e, none)
      else
        let text := (octets.take length).drop 5
        if checksum ⟨(known e).toArray⟩ ≠ checked then .error (.invalid .unicodeChecksum)
        else
          match String.fromUTF8? ⟨text.toArray⟩ with
          | none => .error (.invalid .unicodeText)
          | some s => .ok (change s text e, some length)

def readName : FieldReader := readUnicode (·.nameOctets) fun s octets e =>
  { e with name := s, nameOctets := octets }

def readComment : FieldReader := readUnicode (·.comment.toUTF8.toList) fun s _ e =>
  { e with comment := s }

/-- Times. Flags say which are there, but of five octets one is enough. -/
def readTimes : FieldReader := fun length octets e =>
  match field? octets 0 1 with
  | none => .ok (e, none)
  | some flags =>
    let times := (List.range 8).countP (flags.testBit ·)
    if length ≠ 5 ∧ length ≠ 1 + 4 * times then .error (.unsupported .timesLength)
    else .ok (e, passed octets length)

def readFileTimes : FieldReader := fun length octets e =>
  if length ≠ 32 then .error (.unsupported .fileTimesLength)
  else
    match field? octets 4 2, field? octets 6 2 with
    | some tag, some size =>
      if tag ≠ 1 then .error (.unsupported .fileTimesTag)
      else if size ≠ 24 then .error (.unsupported .fileTimesSize)
      else .ok (e, passed octets length)
    | some tag, none => if tag ≠ 1 then .error (.unsupported .fileTimesTag) else .ok (e, none)
    | none, _ => .ok (e, none)

/-- The maker of the encryption that a record may have. -/
def encryptionVendor : Nat := 0x4541

/-- How a record is encrypted, and its method. -/
def readEncryption : FieldReader := fun length octets e =>
  if length ≠ 7 then .error (.unsupported .encryptionLength)
  else
    match field? octets 0 2, field? octets 2 2, field? octets 4 1, field? octets 5 2 with
    | some version, some vendor, some strength, some method =>
      if vendor ≠ encryptionVendor then .error (.invalid .vendor)
      else if version ≠ 1 ∧ version ≠ 2 then .error (.invalid .vendorVersion)
      else if strength < 1 ∨ 3 < strength then .error (.invalid .encryptionStrength)
      else .ok ({ e with locked := true, method := method }, some length)
    | _, _, _, _ => .ok (e, none)

def readOther : FieldReader := fun length octets e => .ok (e, passed octets length)

/-- The reader for a kind of extra field. -/
def fieldReader (kind : Nat) : FieldReader :=
  if kind = 0x0001 then readSizes
  else if kind = 0x000a then readFileTimes
  else if kind = 0x5455 then readTimes
  else if kind = 0x6375 then readComment
  else if kind = 0x7075 then readName
  else if kind = 0x9901 then readEncryption
  else readOther

/-- An entry with its extra fields read. -/
def readExtra (octets : Octets) (e : DirectoryEntry) : Except ArchiveError DirectoryEntry :=
  match octets with
  | k :: k' :: l :: l' :: rest =>
    match fieldReader (numberOf [k, k']) (numberOf [l, l']) rest e with
    | .error cause => .error cause
    | .ok (e, none) => .ok e
    | .ok (e, some n) => readExtra (rest.drop n) e
  | _ => .ok e
termination_by octets.length
decreasing_by
  simp only [List.length_drop, List.length_cons]
  omega

/-! ## Entries -/

/-- The method of a record whose real method is in an extra field. -/
def encryptedMethod : Nat := 99

/-- The entry at a place, and where the next one is. -/
def entryAt (data : ByteArray) (directory : DirectoryPlace) (place : Nat) :
    Except ArchiveError (DirectoryEntry × Nat) := do
  if data.size < place + entrySize then throw .truncated
  if numberAt data place 4 ≠ entrySignature then throw (.invalid .entrySignature)
  let name := place + entrySize
  let extra := name + numberAt data (place + 28) 2
  let comment := extra + numberAt data (place + 30) 2
  let next := comment + numberAt data (place + 32) 2
  if data.size < next then throw .truncated
  let flags := numberAt data (place + 8) 2
  let isUtf8 := flags.testBit 11
  let nameOctets := (data.extract name extra).toList
  let e ← readExtra (data.extract extra comment).toList {
    name := textOf isUtf8 nameOctets
    nameOctets := nameOctets
    comment := textOf isUtf8 (data.extract comment next).toList
    encrypted := flags.testBit 0
    method := numberAt data (place + 10) 2
    checksum := numberAt data (place + 16) 4
    packedSize := numberAt data (place + 20) 4
    size := numberAt data (place + 24) 4
    place := numberAt data (place + 42) 4 }
  if e.method = encryptedMethod ∧ !e.locked then throw (.invalid .encryptionField)
  let e := { e with place := e.place + directory.base }
  if directory.start ≤ e.place then throw (.invalid .recordBeforeDirectory)
  return (e, next)

/-- So many entries from a place on. -/
def entriesAt (data : ByteArray) (directory : DirectoryPlace) :
    Nat → Nat → Except ArchiveError (List DirectoryEntry)
  | 0, _ => .ok []
  | count + 1, place => do
    let (e, next) ← entryAt data directory place
    return e :: (← entriesAt data directory count next)

/-- The directory that an end leads to. -/
def Ending.entries (data : ByteArray) (ending : Ending) :
    Except ArchiveError (List DirectoryEntry) := do
  if let some rule := ending.broken then throw (.invalid rule)
  if ending.disk ≠ ending.directoryDisk then throw (.unsupported .severalDisks)
  entriesAt data ending.directory ending.directory.count ending.directory.start

def ArchiveError.isCut : ArchiveError → Bool
  | .truncated | .invalid .commentInside => true
  | _ => false

/-- The directory of an archive, found from the first of some places of an end that leads to one.
If none does, the error is the last that was met in a directory, else in an end, where one that is
cut off does not take the place of an error before. -/
def searchDirectory (data : ByteArray) (inDirectory inEnd : Option ArchiveError) :
    List Nat → Except ArchiveError (List DirectoryEntry)
  | [] => .error ((inDirectory <|> inEnd).getD (.invalid .endThere))
  | place :: places =>
    match endingAt data place with
    | .error e =>
      searchDirectory data inDirectory (if e.isCut then inEnd <|> some e else some e) places
    | .ok ending =>
      match ending.entries data with
      | .ok entries => .ok entries
      | .error e => searchDirectory data (some e) none places

/-- The directory of an archive. The end is looked for from behind. -/
def directoryOf (data : ByteArray) : Except ArchiveError (List DirectoryEntry) :=
  searchDirectory data none none (placesOf data endSignature 0 data.size).reverse

end FormLetter.Archive
