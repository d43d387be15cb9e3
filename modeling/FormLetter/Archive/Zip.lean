import FormLetter.Archive.Deflate
import FormLetter.Archive.Directory
import FormLetter.Fields

/-!
# Archives as data

An archive is written as a record for every entry, then a directory with the place of each record,
then the end, which says where the directory is. `decode` reads the entries that the directory
tells. An entry whose record cannot be opened is closed, and one whose data cannot be unpacked is
damaged. Of entries with one name the last is taken, in the place of the first.
-/

namespace FormLetter

namespace Archive

def Method.number : Method → Nat
  | .stored => 0
  | .deflated => 8
  | .other number => number

def Method.ofNumber (n : Nat) : Method :=
  if n = 0 then .stored else if n = 8 then .deflated else .other n

/-- Some data packed with a method. -/
def Packed.of (method : Method) (data : ByteArray) : Packed where
  checksum := Archive.checksum data
  size := data.size
  data := match method with
    | .deflated => deflate data
    | _ => data

/-- The data that was packed with a method. -/
def Packed.unpack (method : Method) (p : Packed) : Except Disk.OsError ByteArray := do
  let data ← match method with
    | .deflated => (inflate? p.data).elim (throw .corruptData) pure
    | _ => pure p.data
  if Archive.checksum data ≠ p.checksum then throw .wrongChecksum
  return data

/-- What record and directory say alike of packed data. The flag is that of a name in UTF-8, the
date is the first there is. -/
def commonFields (e : Entry Packed) (name : Octets) : Octets :=
  octetsOf 2 20 ++ octetsOf 2 0x800 ++ octetsOf 2 e.method.number ++ octetsOf 2 0 ++
    octetsOf 2 0x21 ++ octetsOf 4 e.content.checksum ++ octetsOf 4 e.content.data.size ++
    octetsOf 4 e.content.size ++ octetsOf 2 name.length ++ octetsOf 2 0

def recordOf (e : Entry Packed) : Octets :=
  let name := e.name.toUTF8.toList
  octetsOf 4 recordSignature ++ commonFields e name ++ name ++ e.content.data.toList

def directoryEntryOf (e : Entry Packed) (place : Nat) : Octets :=
  let name := e.name.toUTF8.toList
  octetsOf 4 entrySignature ++ octetsOf 2 20 ++ commonFields e name ++ octetsOf 2 0 ++
    octetsOf 2 0 ++ octetsOf 2 0 ++ octetsOf 4 0 ++ octetsOf 4 place ++ name

/-- The records, and the directory for records from a place on. -/
def recordsAndDirectory (place : Nat) : List (Entry Packed) → Octets × Octets
  | [] => ([], [])
  | e :: rest =>
    let record := recordOf e
    let (records, directory) := recordsAndDirectory (place + record.length) rest
    (record ++ records, directoryEntryOf e place ++ directory)

/-- The data of an archive. -/
def encode (entries : List (Entry Packed)) : ByteArray :=
  let (records, directory) := recordsAndDirectory 0 entries
  let ending := octetsOf 4 endSignature ++ octetsOf 2 0 ++ octetsOf 2 0 ++
    octetsOf 2 entries.length ++ octetsOf 2 entries.length ++ octetsOf 4 directory.length ++
    octetsOf 4 records.length ++ octetsOf 2 0
  ⟨(records ++ directory ++ ending).toArray⟩

/-- The packed data of a record. What is missing of it at the end of the data is left out. -/
def DirectoryEntry.packed (data : ByteArray) (e : DirectoryEntry) : Except ArchiveError Packed := do
  if e.encrypted then throw (.unsupported .password)
  if data.size < e.place + recordSize then throw .truncated
  if numberAt data e.place 4 ≠ recordSignature then throw (.invalid .recordSignature)
  if let .other _ := Method.ofNumber e.method then throw (.unsupported .method)
  if e.locked then throw .wrongPassword
  let start := e.place + recordSize + numberAt data (e.place + 26) 2 +
    numberAt data (e.place + 28) 2
  return ⟨e.checksum, e.size, data.extract start (start + e.packedSize)⟩

/-- What an archive holds for an entry of its directory. -/
def DirectoryEntry.content (data : ByteArray) (e : DirectoryEntry) : Content :=
  match e.packed data with
  | .error cause => .closed cause
  | .ok packed =>
    match packed.unpack (.ofNumber e.method) with
    | .ok data => .bytes data
    | .error cause => .damaged packed cause

/-- The entries of an archive given as data. -/
def decode (data : ByteArray) : Except ArchiveError (List Content.Entry) := do
  let directory ← directoryOf data
  let named := directory.map fun e => (e.name, e)
  return (Fields.ofPairs named).map fun (name, e) =>
    ⟨name, .ofNumber e.method, e.content data⟩

end Archive

namespace Content

open Archive

mutual

/-- A content as plain bytes. -/
def toBytes : Content → ByteArray
  | .bytes data => data
  | .archive entries => encode (packEntries entries)
  | .damaged packed _ => packed.data
  | .closed _ => .empty

/-- The entries as they are written. A closed entry cannot be. -/
def packEntries : List Entry → List (Archive.Entry Packed)
  | [] => []
  | ⟨name, method, content⟩ :: rest =>
    match content with
    | .damaged packed _ => ⟨name, method, packed⟩ :: packEntries rest
    | .closed _ => packEntries rest
    | content => ⟨name, method, .of method content.toBytes⟩ :: packEntries rest

end

/-- The entries of a content that is an archive. -/
def entries : Content → Except ArchiveError (List Entry)
  | .archive entries => .ok entries
  | content => decode content.toBytes

/-- The text that a content is. -/
def text : Content → Except Disk.OsError String
  | .damaged _ cause => .error cause
  | content => (String.fromUTF8? content.toBytes).elim (.error .notText) .ok

end Content

end FormLetter
