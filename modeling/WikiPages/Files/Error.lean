import WikiPages.Text.Basic

namespace WikiPages

inductive FileFault where
  | missing
  | alreadyThere
  | notDirectory
  | isDirectory
  | nameTooLong
  | nulInPath
  -- The bytes are not UTF-8.
  | notText
  deriving DecidableEq

namespace FileFault

def message : FileFault → Text
  | missing => Text.lit "No such file or directory (os error 2)"
  | alreadyThere => Text.lit "File exists (os error 17)"
  | notDirectory => Text.lit "Not a directory (os error 20)"
  | isDirectory => Text.lit "Is a directory (os error 21)"
  | nameTooLong => Text.lit "File name too long (os error 36)"
  | nulInPath => Text.lit "file name contained an unexpected NUL byte"
  | notText => Text.lit "stream did not contain valid UTF-8"

end FileFault

inductive FileError where
  -- The file could be opened and then not be read.
  | reading (fault : FileFault)
  | opening (path : Text) (fault : FileFault)
  | creating (path : Text) (fault : FileFault)
  | writing (path : Text) (fault : FileFault)
  deriving DecidableEq

namespace FileError

def about (words : String) (path : Text) (fault : FileFault) : Text :=
  Text.lit words ++ Text.lit " '" ++ path ++ Text.lit "': " ++ fault.message

def message : FileError → Text
  | reading fault => fault.message
  | opening path fault => about "Failed to read" path fault
  | creating path fault => about "Failed to create" path fault
  | writing path fault => about "Failed to write" path fault

end FileError
end WikiPages
