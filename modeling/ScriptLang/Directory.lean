import ScriptLang.Bindings
import ScriptLang.Error

set_option autoImplicit false

/-! # Files

The files that the command line works on, as a value. Paths that are not absolute start at the
current directory. -/

namespace ScriptLang

/-- A path: the slashes in front of it, which make it absolute, and its parts without empty ones and
dots. -/
structure Path where
  slashes : Nat
  parts : List String
  deriving DecidableEq

namespace Path

/-- The path that a text denotes. Two slashes in front are not the same as one or more than two. -/
def ofText (text : String) : Path :=
  let leading := (text.toList.takeWhile (· = '/')).length
  ⟨if leading = 0 || leading = 2 then leading else 1,
    (text.splitOn "/").filter fun part => part ≠ "" && part ≠ "."⟩

/-- The text of a path; the current directory is a dot. -/
def text (path : Path) : String :=
  let slashes := String.ofList (List.replicate path.slashes '/')
  if path.slashes = 0 && path.parts.isEmpty then "." else slashes ++ "/".intercalate path.parts

/-- The directory that holds what a path leads to. -/
def parent (path : Path) : Path :=
  { path with parts := path.parts.dropLast }

/-- Whether the way along `path` passes `other`. -/
def passes (path other : Path) : Bool :=
  other.slashes = path.slashes && other.parts.isPrefixOf path.parts
    && other.parts.length < path.parts.length

end Path

/-- The files in reach, by the texts of their paths, and directories that may hold none of them. -/
structure Directory where
  files : Bindings String := []
  directories : List Path := []

namespace Directory

/-- Whether a path leads to a directory: to a known one, upward, or to where some file lies. -/
def isDirectory (directory : Directory) (path : Path) : Bool :=
  directory.directories.contains path || path.parts.all (· = "..") ||
    directory.files.any fun (name, _) => (Path.ofText name).passes path

/-- A path with one more part. A step up from a directory that has a name leads back to where that
one lies. -/
def join (directory : Directory) (path : Path) (part : String) : Path :=
  if part = ".." && path.parts.getLast?.any (· ≠ "..") && directory.isDirectory path then
    path.parent
  else { path with parts := path.parts ++ [part] }

/-- The path that a text denotes, without the steps up that lead back. -/
def resolve (directory : Directory) (text : String) : Path :=
  let path := Path.ofText text
  path.parts.foldl directory.join { path with parts := [] }

/-- The text of the file that a path leads to, or `none` if there could be one and is not. Only a
directory can have a slash behind it. -/
def open? (directory : Directory) (text : String) : Except FileError (Option String) :=
  let path := directory.resolve text
  if directory.isDirectory path then .error .isDirectory
  else if directory.isDirectory path.parent then
    match directory.files.find? path.text, text.endsWith "/" with
    | content, false => .ok content
    | some _, true => .error .notDirectory
    | none, true => .error .isDirectory
  else if directory.files.any fun (name, _) => path.passes (Path.ofText name) then
    .error .notDirectory
  else .error .notFound

/-- Whether a path leads to a file or a directory. -/
def contains (directory : Directory) (text : String) : Bool :=
  match directory.open? text with
  | .ok content => content.isSome
  | .error e => e = .isDirectory

/-- The text of the file that a path leads to. -/
def read (directory : Directory) (text : String) : Except FileError String :=
  match directory.open? text with
  | .ok (some content) => .ok content
  | .ok none => .error .notFound
  | .error e => .error e

/-- Writes a file. -/
def write (directory : Directory) (text content : String) : Directory :=
  { directory with files := directory.files.insert (directory.resolve text).text content }

end Directory

end ScriptLang
