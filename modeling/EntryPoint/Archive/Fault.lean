/-!
# What can be wrong with an archive

Faults of the archive's structure are `Fault`s; a fault of one entry's data is a `DataFault`.
-/

namespace EntryPoint.Archive

/-- A reason for which an archive, or an entry of it, cannot be opened. -/
inductive Fault where
  /-- The file is shorter than the record that ends every archive. -/
  | tooShort
  /-- No record that ends an archive was found. -/
  | noEnd
  /-- The extended end record that a locator announces was not found. -/
  | noExtendedEnd
  /-- There is a locator but no room for an extended end record. -/
  | noRoomForExtendedEnd
  /-- The size and the offset of the directory do not fit into the file. -/
  | badDirectoryExtent
  /-- A directory entry does not start with its mark. -/
  | badDirectoryEntry
  /-- An entry lies beyond every possible offset. -/
  | offsetTooLarge
  /-- A directory entry points to no entry. -/
  | badLocalHeader
  /-- The archive extends over several disks. -/
  | multiDisk
  /-- The entry is compressed by an unknown method. -/
  | unsupportedMethod
  /-- The entry is encrypted. -/
  | encrypted
  /-- The file ends inside a record. -/
  | endOfFile
  deriving DecidableEq

/-- The wording of an archive that breaks the format. -/
def invalid (reason : String) : String :=
  "invalid Zip archive: " ++ reason

/-- The wording of an archive that uses what is not supported. -/
def unsupported (reason : String) : String :=
  "unsupported Zip archive: " ++ reason

/-- The wording of a fault. -/
def Fault.message : Fault → String
  | .tooShort => invalid "Invalid zip header"
  | .noEnd => invalid "Could not find central directory end"
  | .noExtendedEnd => invalid "Could not find ZIP64 central directory end"
  | .noRoomForExtendedEnd => invalid "File cannot contain ZIP64 central directory end"
  | .badDirectoryExtent => invalid "Invalid central directory size or offset"
  | .badDirectoryEntry => invalid "Invalid Central Directory header"
  | .offsetTooLarge => invalid "Archive header is too large"
  | .badLocalHeader => invalid "Invalid local file header"
  | .multiDisk => unsupported "Support for multi-disk files is not implemented"
  | .unsupportedMethod => unsupported "Compression method not supported"
  | .encrypted => unsupported "Password required to decrypt file"
  | .endOfFile => "failed to fill whole buffer"

/-- A reason for which the data of an entry is no content. -/
inductive DataFault where
  /-- The compressed stream breaks the format. -/
  | corruptStream
  /-- The content has another checksum than the directory says. -/
  | badChecksum
  deriving DecidableEq

/-- The wording of a fault of an entry's data. -/
def DataFault.message : DataFault → String
  | .corruptStream => "corrupt deflate stream"
  | .badChecksum => "Invalid checksum"

end EntryPoint.Archive
