/-!
# Faults of file access

Why a file cannot be reached or read, in the words and numbers of the operating system.
-/

namespace FontCatalog

/-- Why an access to a file failed. -/
inductive FileFault where
  | notFound
  | notDirectory
  | isDirectory
  | tooManyLinks
  /-- A name, or the whole path, is too long. -/
  | nameTooLong
  /-- A path with a zero byte never reaches the operating system. -/
  | zeroByte
deriving DecidableEq

/-- The wording of a fault. -/
def FileFault.message : FileFault → String
  | notFound => "No such file or directory (os error 2)"
  | notDirectory => "Not a directory (os error 20)"
  | isDirectory => "Is a directory (os error 21)"
  | tooManyLinks => "Too many levels of symbolic links (os error 40)"
  | nameTooLong => "File name too long (os error 36)"
  | zeroByte => "file name contained an unexpected NUL byte"

end FontCatalog
