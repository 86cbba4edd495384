import Ilxd.Lurk.Parser

/-!
# The dependency directory of the import preprocessor

`macroExpandImport` resolves an import path against a dependency directory, an `fs.FS` and a
path in it (`fsDirectory`), through `filepath.Join` and `loadFilesFromFS`, which reads every
`.lurk` file directly in a directory.  This module models the path functions of Go's
`path/filepath` and `io/fs` that it calls, on slash-separated paths, and a finite file system.

* `FS` — a finite file system: its regular files with their paths, which are valid and listed
  in path order, as the invariant of the structure.
* `loadFilesFromFS` — the contents of the `.lurk` files directly in a directory, in name
  order, or the error of `fs.ReadDir`.
-/

set_option autoImplicit false

namespace Ilxd

/-! ## Paths -/

/-- `fs.ValidPath`: `.`, or slash-separated elements none of which is empty, `.` or `..`. -/
def ValidPath (name : List Char) : Bool :=
  name == ['.'] || (name.splitOn '/').all fun e => e != [] && e != ['.'] && e != ['.', '.']

/-- `filepath.Clean` on slash-separated paths: empty and `.` elements dropped, each `..`
removed with the element before it (kept at the start of a relative path, dropped at the
start of a rooted one), and `.` if nothing is left. -/
def Clean (path : List Char) : List Char :=
  let rooted := path.head? == some '/'
  let elems := (path.splitOn '/').filter fun e => e != [] && e != ['.']
  let out := elems.foldl (fun acc e =>
    if e == ['.', '.'] then
      match acc with
      | d :: acc' => if d == ['.', '.'] then e :: acc else acc'
      | [] => if rooted then [] else [e]
    else e :: acc) []
  let body := ['/'].intercalate out.reverse
  if rooted then '/' :: body else if body = [] then ['.'] else body

/-- `filepath.Join`: the non-empty elements joined by `/` and cleaned; empty if there are
none. -/
def Join (elems : List (List Char)) : List Char :=
  match elems.filter (· != []) with
  | [] => []
  | es => Clean (['/'].intercalate es)

/-- `filepath.Ext`: the suffix of the last element from its final `.`, or empty. -/
def Ext (path : List Char) : List Char :=
  let last := path.reverse.takeWhile (· != '/')
  if '.' ∈ last then '.' :: (last.takeWhile (· != '.')).reverse else []

/-- The path of `path` inside the directory `dir`, if it lies inside it. -/
def relTo (dir path : List Char) : Option (List Char) :=
  if dir = ['.'] then some path
  else if (dir ++ ['/']).isPrefixOf path then some (path.drop (dir.length + 1)) else none

/-! ## The file system -/

/-- The byte order of Go's string comparison, on names. -/
def pathLt : List Char → List Char → Bool
  | [], _ :: _ => true
  | a :: as, b :: bs => a.toNat < b.toNat || (a == b && pathLt as bs)
  | _, _ => false

/-- Go's `fs.FS`, taken finite, as its regular files with their paths and contents.  The
paths are valid and listed in order, so that the files of one directory come in the name
order of `fs.ReadDir`. -/
structure FS where
  files : List (List Char × List Char)
  sorted : files.Pairwise fun a b => pathLt a.1 b.1 = true
  valid : ∀ f ∈ files, ValidPath f.1 = true

/-- The directories of a file system: `.` and every directory a file lies in. -/
def FS.isDir (fileSystem : FS) (dir : List Char) : Bool :=
  dir == ['.'] || fileSystem.files.any fun f => (relTo dir f.1).isSome

/-- Not in src/, assumed: `fsDirectory`, a file system and the path of the dependency
directory in it. -/
structure FsDirectory where
  fileSystem : FS
  path : List Char

/-- The content of a file directly in `directory` whose extension is `.lurk`. -/
def lurkFile (directory : List Char) (f : List Char × List Char) : Option (List Char) :=
  match relTo directory f.1 with
  | some name => if '/' ∉ name ∧ Ext name = ".lurk".toList then some f.2 else none
  | none => none

/-- `loadFilesFromFS`: `fs.ReadDir`, then `fs.ReadFile` of every entry that is not a
directory and has the extension `.lurk`. -/
def loadFilesFromFS (fileSystem : FS) (directory : List Char) :
    Except Fault (List (List Char)) :=
  if ValidPath directory && fileSystem.isDir directory then
    .ok (fileSystem.files.filterMap (lurkFile directory))
  else .error (.pathError "open" (String.mk directory))

end Ilxd
