import Intcode.ProgramText

namespace Intcode

inductive FileError where
  | missing (path : String)
  | isFolder (path : String)
  | notFolder (path : String)
  | nameTooLong (path : String)
  | nullCharacter
deriving DecidableEq, Repr

namespace FileError

def message : FileError → String
  | .missing path => s!"[Errno 2] No such file or directory: {Text.quote path}"
  | .isFolder path => s!"[Errno 21] Is a directory: {Text.quote path}"
  | .notFolder path => s!"[Errno 20] Not a directory: {Text.quote path}"
  | .nameTooLong path => s!"[Errno 36] File name too long: {Text.quote path}"
  | .nullCharacter => "embedded null byte"

end FileError

inductive LoadError where
  | file (e : FileError)
  | notUtf8
  | badToken (b : BadToken)
deriving DecidableEq, Repr

def LoadError.message : LoadError → String
  | .file e => e.message
  | .notUtf8 => ""
  | .badToken b => b.message

inductive Entry where
  | file (bytes : ByteArray)
  | folder

/-- A directory: what stands under each name. A name may lead through folders, which then need
no entry of their own. -/
structure Directory where
  entries : List (String × Entry)

namespace Directory

def parts (path : String) : List String :=
  (Text.pieces '/' path.toList).map String.ofList

/-- The most bytes that a path may have, and one of its names. -/
def pathLimit : Nat := 4095

def nameLimit : Nat := 255

def entry? (d : Directory) (names : List String) : Option Entry :=
  match d.entries.find? fun (name, _) => parts name == names with
  | some (_, e) => some e
  | none =>
    if d.entries.any fun (name, _) => names.isPrefixOf (parts name) then some .folder else none

/-- Follows the parts of a path from a folder, where `none` stands for the folders above the
directory, in which nothing is known. An empty part or a dot stays in the folder. -/
def follow (d : Directory) (path : String) : (folder : Option (List String)) → List String →
    Except FileError ByteArray
  | _, [] => .error (.isFolder path)
  | folder, name :: rest =>
    if name = "" || name = "." then follow d path folder rest
    else if name = ".." then
      follow d path (folder.bind fun names => if names.isEmpty then none else names.dropLast) rest
    else if nameLimit < name.utf8ByteSize then .error (.nameTooLong path)
    else
      match folder with
      | none => .error (.missing path)
      | some names =>
        match d.entry? (names ++ [name]) with
        | none => .error (.missing path)
        | some .folder => follow d path (some (names ++ [name])) rest
        | some (.file bytes) => if rest.isEmpty then .ok bytes else .error (.notFolder path)

def origin (path : String) : Option (List String) :=
  if path.toList.head? = some '/' then none else some []

def read (d : Directory) (path : String) : Except FileError ByteArray :=
  if path.contains (Char.ofNat 0) then .error .nullCharacter
  else if path = "" then .error (.missing path)
  else if pathLimit < path.utf8ByteSize then .error (.nameTooLong path)
  else d.follow path (origin path) (parts path)

end Directory

namespace ProgramFile

def decode (bytes : ByteArray) : Except LoadError (List Int) :=
  match String.fromUTF8? bytes with
  | none => .error .notUtf8
  | some text =>
    match ProgramText.parseChars (Text.unifyLineEnds text.toList) with
    | .error b => .error (.badToken b)
    | .ok cells => .ok cells

def load (read : String → Except FileError ByteArray) (path : String) :
    Except LoadError (List Int) :=
  match read path with
  | .error e => .error (.file e)
  | .ok bytes => decode bytes

end ProgramFile

end Intcode
