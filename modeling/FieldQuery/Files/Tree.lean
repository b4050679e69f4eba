import FieldQuery.Files.Path
import FieldQuery.Text.Characters

/-!
# Files

Two things are asked about a path: whether it leads to a file, and what reading it
gives.  The answers are independent, as a file may be there and not be readable.

A file tree holds directories and files at places, a place being the names on the way
from the root.  Reading follows a path piece by piece; a piece of two points leads to
the directory above, and whatever a path goes through has to be a directory.
-/

namespace FieldQuery

/-- Why a path has no text to read. -/
inductive FileError where
  /-- The path holds a character that no path can hold. -/
  | nullCharacter
  | nameTooLong
  | notFound
  | notDirectory
  | isDirectory
  /-- The bytes that were read are no text. -/
  | notText
  /-- Reading is refused, for a reason in other words. -/
  | refused (reason : String)
deriving DecidableEq, Repr

namespace FileError

/-- The wording of a file error. -/
def message : FileError → String
  | nullCharacter => "file name contained an unexpected NUL byte"
  | nameTooLong => "File name too long (os error 36)"
  | notFound => "No such file or directory (os error 2)"
  | notDirectory => "Not a directory (os error 20)"
  | isDirectory => "Is a directory (os error 21)"
  | notText => "stream did not contain valid UTF-8"
  | refused reason => reason

end FileError

/-- What there is to know about paths. -/
structure Files where
  /-- Whether a path leads to a file, readable or not. -/
  hasFile : String → Bool
  /-- What reading a path gives. -/
  text : String → Except FileError String

/-- Files are used as what reading them gives. -/
instance : CoeFun Files fun _ => String → Except FileError String where
  coe := Files.text

/-- Names on the way from the root. -/
abbrev Place :=
  List (List Char)

/-- The place that a piece leads to from a directory. -/
def Place.step (place : Place) (piece : List Char) : Place :=
  if Path.isIdle piece then place
  else if piece = ['.', '.'] then place.dropLast
  else place ++ [piece]

/-- The places along pieces, from where they start to where they lead. -/
def Place.trail (place : Place) : List (List Char) → List Place
  | [] => [place]
  | piece :: pieces => place :: Place.trail (place.step piece) pieces

/-- A place as an absolute path. -/
def Place.toPath (place : Place) : String :=
  String.ofList ('/' :: Path.join place)

/-- The directories below the root, and the files with their bytes, the newest first. -/
structure FileTree where
  directories : List Place := []
  files : List (Place × ByteArray) := []

namespace FileTree

/-- Adds a directory and those on the way to it. -/
def addDirectory (t : FileTree) (path : String) : FileTree where
  directories := Place.trail [] (Path.pieces path.toList) ++ t.directories
  files := t.files

/-- Adds a file and the directories on the way to it. -/
def addFile (t : FileTree) (path : String) (bytes : ByteArray) : FileTree :=
  let trail := Place.trail [] (Path.pieces path.toList)
  { directories := trail.dropLast ++ t.directories
    files := (trail.getLast?.getD [], bytes) :: t.files }

/-- Whether there is a directory at a place. -/
def isDirectory (t : FileTree) (place : Place) : Bool :=
  place = [] || t.directories.contains place

/-- The bytes of the file at a place. -/
def bytes? (t : FileTree) (place : Place) : Option ByteArray :=
  t.files.lookup place

/-- The greatest number of bytes of a name. -/
def maxNameLength : Nat :=
  255

/-- The greatest number of bytes of a path. -/
def maxPathLength : Nat :=
  4095

/-- The place that pieces lead to, if all they go through are directories. -/
def follow (t : FileTree) (place : Place) : List (List Char) → Except FileError Place
  | [] => .ok place
  | piece :: pieces =>
      let next := place.step piece
      if !t.isDirectory place then .error .notDirectory
      else if maxNameLength < Text.byteLength piece then .error .nameTooLong
      else if t.isDirectory next || (t.bytes? next).isSome then follow t next pieces
      else .error .notFound

/-- Where a path leads from a directory: anywhere from the root if it starts with a slash. -/
def locate (t : FileTree) (directory : Place) (path : String) : Except FileError Place :=
  if '\x00' ∈ path.toList then .error .nullCharacter
  else if maxPathLength < path.utf8ByteSize then .error .nameTooLong
  else
    match path.toList with
    | [] => .error .notFound
    | '/' :: cs => t.follow [] (Path.pieces cs)
    | cs => t.follow directory (Path.pieces cs)

/-- The files of a tree, for paths that start in a directory. -/
def read (t : FileTree) (directory : Place) : Files where
  hasFile := fun path =>
    match t.locate directory path with
    | .error _ => false
    | .ok place => (t.bytes? place).isSome
  text := fun path =>
    match t.locate directory path with
    | .error e => .error e
    | .ok place =>
        match t.bytes? place with
        | none => .error .isDirectory
        | some bytes =>
            match String.fromUTF8? bytes with
            | none => .error .notText
            | some text => .ok text

end FileTree

end FieldQuery
