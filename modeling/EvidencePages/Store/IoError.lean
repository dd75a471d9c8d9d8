/-!
# Why a file operation failed

The causes that a file store or a handle pool can give, and the text of each.
-/

set_option autoImplicit false

namespace EvidencePages

inductive IoError where
  | notFound
  | notADirectory
  | isADirectory
  | noSuchDevice
  | invalidArgument
  | tooManyLinks
  | nameTooLong
  | nulInPath
  | notUtf8
  | indexOutOfRange (index count : Nat)
  | other (text : String)
  deriving DecidableEq, Repr

def IoError.message : IoError → String
  | .notFound => "No such file or directory (os error 2)"
  | .notADirectory => "Not a directory (os error 20)"
  | .isADirectory => "Is a directory (os error 21)"
  | .noSuchDevice => "No such device (os error 19)"
  | .invalidArgument => "Invalid argument (os error 22)"
  | .tooManyLinks => "Too many levels of symbolic links (os error 40)"
  | .nameTooLong => "File name too long (os error 36)"
  | .nulInPath => "file name contained an unexpected NUL byte"
  | .notUtf8 => "stream did not contain valid UTF-8"
  | .indexOutOfRange index count =>
    "file index " ++ toString index ++ " out of range (have " ++ toString count ++ " files)"
  | .other text => text

end EvidencePages
