/-!
# Errors of archives

Why data is not an archive, or why an entry of one cannot be opened. A `Rule` is a rule of the
format that the data breaks, a `Feature` something the format has and that is not read here.
-/

namespace FormLetter.Archive

inductive Rule where
  | endThere
  | commentInside
  | directoryBeforeEnd
  | directoryThere
  | wideEndBeforeLocator
  | oneDisk
  | wideEndThere
  | wideEndLength
  | wideEndSize
  | wideEndInside
  | wideEndDisk
  | roomForFiles
  | filesOnDisk
  | versionNeeded
  | entrySignature
  | recordSignature
  | recordBeforeDirectory
  | wideSizes
  | unicodeLength
  | unicodeChecksum
  | unicodeText
  | vendor
  | vendorVersion
  | encryptionStrength
  | encryptionField
  deriving DecidableEq, Repr

def Rule.message : Rule → String
  | .endThere => "Could not find EOCD"
  | .commentInside => "EOCD comment exceeds file boundary"
  | .directoryBeforeEnd => "Invalid CDFH offset in EOCD"
  | .directoryThere => "No CDFH found"
  | .wideEndBeforeLocator => "Invalid EOCD64 Locator CD offset"
  | .oneDisk => "Multi-disk ZIP files are not supported"
  | .wideEndThere => "Could not find EOCD64"
  | .wideEndLength => "Invalid EOCD64: inconsistent length"
  | .wideEndSize => "Low EOCD64 record size"
  | .wideEndInside => "EOCD64 extends beyond EOCD64 locator"
  | .wideEndDisk => "Invalid EOCD64: inconsistency with Locator data"
  | .roomForFiles => "Invalid EOCD64: inconsistent number of files"
  | .filesOnDisk =>
    "ZIP64 footer indicates more files on this disk than in the whole archive"
  | .versionNeeded =>
    "ZIP64 footer indicates a new version is needed to extract this archive than the version " ++
      "that wrote it"
  | .entrySignature => "Invalid Central Directory header"
  | .recordSignature => "Invalid local file header"
  | .recordBeforeDirectory => "A local file entry can't start after the central directory"
  | .wideSizes => "ZIP64 extra-data field is the wrong length"
  | .unicodeLength => "Unicode extra field is too small"
  | .unicodeChecksum => "CRC32 checksum failed on Unicode extra field"
  | .unicodeText => "Invalid UTF-8"
  | .vendor => "Invalid AES vendor"
  | .vendorVersion => "Invalid AES vendor version"
  | .encryptionStrength => "Invalid AES encryption strength"
  | .encryptionField => "AES encryption without AES extra data field"

inductive Feature where
  | severalDisks
  | password
  | method
  | encryptionLength
  | timesLength
  | fileTimesLength
  | fileTimesTag
  | fileTimesSize
  deriving DecidableEq, Repr

def Feature.message : Feature → String
  | .severalDisks => "Support for multi-disk files is not implemented"
  | .password => "Password required to decrypt file"
  | .method => "Compression method not supported"
  | .encryptionLength => "AES extra data field has an unsupported length"
  | .timesLength => "flags and len don't match in extended timestamp field"
  | .fileTimesLength => "NTFS extra field has an unsupported length"
  | .fileTimesTag => "NTFS extra field has an unsupported attribute tag"
  | .fileTimesSize => "NTFS extra field has an unsupported attribute size"

inductive ArchiveError where
  | invalid (rule : Rule)
  | unsupported (feature : Feature)
  /-- The data ends too early. -/
  | truncated
  /-- The entry is encrypted in a way that its flags do not tell. -/
  | wrongPassword
  deriving DecidableEq, Repr

def ArchiveError.message : ArchiveError → String
  | .invalid rule => "invalid Zip archive: " ++ rule.message
  | .unsupported feature => "unsupported Zip archive: " ++ feature.message
  | .truncated => "i/o error: failed to fill whole buffer"
  | .wrongPassword => "provided password is incorrect"

end FormLetter.Archive
