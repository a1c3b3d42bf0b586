/-!
# StagePlay.Script.Files

The files that scripts are loaded from.

`Files` answers a path with the bytes of a file or the reason why there are none. A `Folder` is a
working directory given by value, with files and empty directories in it; `Folder.read` walks a
path through it.
-/

namespace StagePlay

inductive FileFault where
  | notFound
  | notADirectory
  | isADirectory
  | nameTooLong
  | nulInName
  | notUtf8
  /-- Any other reason, in words. -/
  | other (text : String)
  deriving DecidableEq, Repr

def FileFault.message : FileFault → String
  | .notFound => "No such file or directory (os error 2)"
  | .notADirectory => "Not a directory (os error 20)"
  | .isADirectory => "Is a directory (os error 21)"
  | .nameTooLong => "File name too long (os error 36)"
  | .nulInName => "file name contained an unexpected NUL byte"
  | .notUtf8 => "stream did not contain valid UTF-8"
  | .other text => text

abbrev Files := String → Except FileFault ByteArray

def Files.text (files : Files) (path : String) : Except FileFault String :=
  match files path with
  | .error fault => .error fault
  | .ok bytes =>
    match String.fromUTF8? bytes with
    | some s => .ok s
    | none => .error .notUtf8

/-- What a name in a folder stands for. -/
inductive Entry where
  | file (content : ByteArray)
  /-- A directory without entries. -/
  | directory

/-- A working directory. -/
abbrev Folder := List (String × Entry)

namespace Folder

/-- Where a walk along a path stands. -/
inductive Stop where
  /-- A directory outside of the folder, with nothing in it that is known. -/
  | outside
  | here
  | below
  | file (content : ByteArray)

/-- The longest name that a directory can have an entry of, in bytes. -/
def nameLimit : Nat := 255

/-- What a name stands for at a stop; outside and in a subdirectory nothing is known. -/
def entry (folder : Folder) (stop : Stop) (name : String) : Except FileFault Stop :=
  match stop, folder.lookup name with
  | .here, some (.file content) => .ok (.file content)
  | .here, some .directory => .ok .below
  | _, _ => .error .notFound

/-- The directory that a stop is in. -/
def Stop.back : Stop → Stop
  | .below => .here
  | _ => .outside

def enter (folder : Folder) (stop : Stop) (name : String) : Except FileFault Stop :=
  match stop with
  | .file _ => .error .notADirectory
  | stop =>
    if name = "" ∨ name = "." then .ok stop
    else if name = ".." then .ok stop.back
    else if nameLimit < name.utf8ByteSize then .error .nameTooLong
    else folder.entry stop name

def walk (folder : Folder) (stop : Stop) : List String → Except FileFault Stop
  | [] => .ok stop
  | name :: rest =>
    match folder.enter stop name with
    | .error fault => .error fault
    | .ok next => folder.walk next rest

def names (cs : List Char) : List String :=
  let cut (c : Char) : List (List Char) → List (List Char)
    | [] => [[c]]
    | name :: rest => if c = '/' then [] :: name :: rest else (c :: name) :: rest
  (cs.foldr cut [[]]).map String.ofList

/-- Reads a file by a path that starts in the folder, or at the root, which is outside of it. -/
def read (folder : Folder) : Files := fun path =>
  if path.contains '\x00' then .error .nulInName
  else if path = "" then .error .notFound
  else if 4096 ≤ path.utf8ByteSize then .error .nameTooLong
  else
    match folder.walk (if path.startsWith "/" then .outside else .here) (names path.toList) with
    | .error fault => .error fault
    | .ok (.file content) => .ok content
    | .ok _ => .error .isADirectory

end Folder

end StagePlay
