/-
# Files

What the program knows of the world outside is the text of the files it names, or why a file
cannot be read.  `Files.ofDirectory` says it for a working directory that holds nothing but
some files.
-/

namespace RadixRouter.CommandLine

/-- Why a file cannot be read. -/
inductive FileTrouble where
  | missing
  /-- A file stands where its name has a directory. -/
  | notDirectory
  | isDirectory
  | nameTooLong
  | denied
  /-- Its bytes are no text. -/
  | notText
deriving DecidableEq

/-- What the system says of a trouble. -/
def FileTrouble.text : FileTrouble → String
  | .missing => "No such file or directory (os error 2)"
  | .notDirectory => "Not a directory (os error 20)"
  | .isDirectory => "Is a directory (os error 21)"
  | .nameTooLong => "File name too long (os error 36)"
  | .denied => "Permission denied (os error 13)"
  | .notText => "stream did not contain valid UTF-8"

/-- The files a program can read: their text, or why they cannot be read. -/
abbrev Files := String → Except FileTrouble String

namespace Files

/-- Where the steps of a path lead. -/
inductive Spot where
  /-- The working directory. -/
  | inside
  /-- A directory around it. -/
  | outside
  | file (source : String)

/-- One step of a path in a working directory. -/
def step (entries : List (String × String)) (spot : Spot) (name : String) :
    Except FileTrouble Spot :=
  match spot with
  | .file _ => .error .notDirectory
  | directory =>
    if name = "" || name = "." then .ok directory
    else if name = ".." then .ok .outside
    else if 255 < name.utf8ByteSize then .error .nameTooLong
    else
      match directory, entries.lookup name with
      | .inside, some source => .ok (.file source)
      | _, _ => .error .missing

/-- The files of a working directory with some entries. -/
def ofDirectory (entries : List (String × String)) : Files := fun path => do
  if path = "" then throw .missing
  if 4096 ≤ path.utf8ByteSize then throw .nameTooLong
  let start : Spot := if path.startsWith "/" then .outside else .inside
  match ← (path.splitOn "/").foldlM (step entries) start with
  | .file source => return source
  | _ => throw .isDirectory

end Files

end RadixRouter.CommandLine
