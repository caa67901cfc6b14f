import InodeStore.Bench.Run

/-!
# `InodeStore.Bench.Directory` — images by name

A run names its image by a path from the directory it works in. That directory holds files only, so
a path is a name with steps before it that stay (`.`) or go up (`..`); a file further up is kept under
its name with the steps up before it.

- `locate` follows a path to the name under which its image is kept.
- `run` runs on the image that the options name and keeps what comes of it.
-/

namespace InodeStore.Bench

/-- The files of a directory by name, each name once. -/
abbrev Directory := List (String × HostFile)

namespace Directory

/-- Give a name a file, in place of the one it may have. -/
def set (files : Directory) (name : String) (file : HostFile) : Directory :=
  (name, file) :: files.filter fun entry => entry.1 ≠ name

/-! ## Paths -/

/-- Bytes in the longest name. -/
def maxNameBytes : Nat := 255

/-- Bytes in the longest path. -/
def maxPathBytes : Nat := 4095

/-- Is there a file of this name, as far up as `place` says? -/
def holds (files : Directory) (place name : String) : Except Failure Bool :=
  if maxNameBytes < name.utf8ByteSize then .error .nameTooLong
  else .ok (files.lookup (place ++ name)).isSome

/-- What is wrong where a directory is asked for. -/
def noDirectory (fileThere : Bool) : Failure := if fileThere then .notDirectory else .noImage

/-- Take the last step of a path, a name. A slash after it asks for a directory, and none is made. -/
def arrive (files : Directory) (create slash : Bool) (place name : String) :
    Except Failure String := do
  if slash && create then throw .isDirectory
  let fileThere ← files.holds place name
  if slash then throw (noDirectory fileThere)
  return place ++ name

/-- Follow the steps of a path; `place` is how far up it has gone. -/
def follow (files : Directory) (create slash : Bool) (place : String) :
    List String → Except Failure String
  | [] => throw .isDirectory
  | "." :: rest => follow files create slash place rest
  | ".." :: rest => follow files create slash ("../" ++ place) rest
  | [name] => files.arrive create slash place name
  | name :: _ => do throw (noDirectory (← files.holds place name))

/-- The name under which the image of a path is kept. No path from the root leads to an image. -/
def locate (files : Directory) (create : Bool) (path : String) : Except Failure String :=
  let steps := path.splitOn "/"
  if maxPathBytes < path.utf8ByteSize then throw .nameTooLong
  else if steps.head? = some "" then throw .noImage
  else files.follow create (steps.getLast? == some "") "" (steps.filter fun step => step ≠ "")

/-! ## Runs -/

/-- Run on the image that the options name. -/
def run (files : Directory) (o : Options) (limit : Nat := memoryLimit) : Report × Directory :=
  match files.locate o.format o.image with
  | .error failure => (⟨[imageLine o], .failure failure, []⟩, files)
  | .ok name =>
    match Bench.run o (files.lookup name) limit with
    | (report, some file) => (report, files.set name file)
    | (report, none) => (report, files)

end Directory

end InodeStore.Bench
