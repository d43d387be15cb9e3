/-!
# Errors of files
-/

namespace FormLetter.Disk

/-- Why a file or a directory cannot be used, or data in a file cannot be read. -/
inductive OsError where
  | notFound
  | permissionDenied
  | notExecutable
  | busy
  | alreadyExists
  | notDirectory
  | isDirectory
  | noSpace
  | notEmpty
  /-- The content of a file is not text. -/
  | notText
  /-- Deflated data breaks the rules of its format. -/
  | corruptData
  /-- Data is not what its checksum was taken of. -/
  | wrongChecksum
  /-- What is to be copied is not a file. -/
  | notFile
  deriving DecidableEq, Repr

def OsError.message : OsError → String
  | .notFound => "No such file or directory (os error 2)"
  | .notExecutable => "Exec format error (os error 8)"
  | .permissionDenied => "Permission denied (os error 13)"
  | .busy => "Device or resource busy (os error 16)"
  | .alreadyExists => "File exists (os error 17)"
  | .notDirectory => "Not a directory (os error 20)"
  | .isDirectory => "Is a directory (os error 21)"
  | .noSpace => "No space left on device (os error 28)"
  | .notEmpty => "Directory not empty (os error 39)"
  | .notText => "stream did not contain valid UTF-8"
  | .corruptData => "corrupt deflate stream"
  | .wrongChecksum => "Invalid checksum"
  | .notFile => "the source path is neither a regular file nor a symlink to a regular file"

end FormLetter.Disk
