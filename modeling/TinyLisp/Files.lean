import TinyLisp.Fault
import TinyLisp.Text.Utf8

/-!
# Files

Paths are compared and shown in a normal form: single slashes, no `.`
parts and no slash at the end. The files that a program can read are given
as a function from path texts to contents; `Tree` is such a function for a
tree of files that is held in memory.
-/

namespace TinyLisp

/-! ## Paths -/

/-- A path in normal form. The root is empty for a relative path, and `/`
or, for exactly two slashes in front, `//` for an absolute one. -/
structure Path where
  root : String
  parts : List String

namespace Path

/-- The pieces of a text between slashes. -/
def pieces (text : String) : List String :=
  (text.toList.splitOn '/').map String.ofList

def ofText (text : String) : Path :=
  let root :=
    match (text.toList.takeWhile (· == '/')).length with
    | 0 => ""
    | 2 => "//"
    | _ => "/"
  ⟨root, (pieces text).filter fun piece => piece != "" && piece != "."⟩

/-- The path as it is shown; `.` stands for the empty path. -/
def text (path : Path) : String :=
  if path.root = "" ∧ path.parts = [] then "."
  else path.root ++ "/".intercalate path.parts

end Path

/-- The contents of the files that can be read, by the text of a path. -/
def Files := String → Except FileFault (List UInt8)

/-- The text in a file. -/
def Files.readText (files : Files) (path : Path) : Except Stop String :=
  match files path.text with
  | .error fault => .error (.unreadable path.text fault)
  | .ok bytes =>
    match Text.decodeUtf8 bytes with
    | .error fault => .error (.unreadable path.text (.undecodable fault))
    | .ok source => .ok source

/-! ## A tree of files in memory -/

/-- Files with their contents and directories without, by the names from
the working directory down. The directories above a file or a directory
are there too. -/
structure Tree where
  entries : List (List String × Option (List UInt8))

namespace Tree

/-- A place that a path leads to. -/
inductive Place where
  | file (bytes : List UInt8)
  /-- A directory below the working directory. -/
  | directory (names : List String)
  /-- A directory that is not below the working directory. There are no
  files to be found in it. -/
  | outside

/-- The place with the given names. -/
def find? (tree : Tree) (names : List String) : Option Place :=
  match tree.entries.lookup names with
  | some (some bytes) => some (.file bytes)
  | some none => some (.directory names)
  | none =>
    if tree.entries.any fun entry => names.isPrefixOf entry.1 then some (.directory names)
    else none

/-- Goes from a place by one part of a path. -/
def enter (tree : Tree) : Place → String → Except FileFault Place
  | .file _, _ => .error .notDirectory
  | .outside, part => if part = "." ∨ part = ".." then .ok .outside else .error .notFound
  | .directory names, part =>
    if part = "." then .ok (.directory names)
    else if part = ".." then
      .ok (if names.isEmpty then .outside else .directory names.dropLast)
    else
      match tree.find? (names ++ [part]) with
      | some place => .ok place
      | none => .error .notFound

/-- The parts of a path that are walked one by one. A slash at the end
asks for a directory. -/
def walkedParts (text : String) : List String :=
  let parts := (Path.pieces text).filter (· != "")
  if text.toList.getLast? = some '/' then parts ++ ["."] else parts

/-- Reads a file of the tree. -/
def read (tree : Tree) : Files := fun text => do
  if text = "" then throw .notFound
  let start : Place := if text.toList.head? = some '/' then .outside else .directory []
  match ← (walkedParts text).foldlM tree.enter start with
  | .file bytes => return bytes
  | _ => throw .isDirectory

end Tree

end TinyLisp
