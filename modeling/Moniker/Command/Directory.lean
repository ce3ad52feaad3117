import Moniker.Error

/-!
# Files

Rule files are read by path. `Files` says what reading each path gives, and `Directory.read?`
is how that looks for a working directory with plain files in it and nothing around it.
-/

namespace Moniker

/-- What reading a path gives: the text of the file there, or why there is none. -/
abbrev Files := String → Except ReadFault String

/-- A directory with plain files, by their names. -/
structure Directory where
  files : List (String × ByteArray)

namespace Directory

/-- Whether a step of a path leads from a directory to a directory. -/
def staysAmongDirectories (step : String) : Bool := step = "" || step = "." || step = ".."

/-- Read the file at a path that starts in the directory. Outside of it there are no files,
and a plain file has nothing below it. -/
def read? (d : Directory) : Files := fun path =>
  let steps := path.splitOn "/"
  let leading := steps.takeWhile staysAmongDirectories
  match steps.dropWhile staysAmongDirectories with
  | [] => .error .isADirectory
  | name :: below =>
    if path.startsWith "/" || ".." ∈ leading then .error .notFound
    else match d.files.find? (·.1 = name) with
      | none => .error .notFound
      | some (_, bytes) =>
        if below ≠ [] then .error .notADirectory
        else match String.fromUTF8? bytes with
          | some text => .ok text
          | none => .error .invalidData

end Directory

end Moniker
