/-!
Files by their paths. A path is followed from the working directory or, if it starts with a
slash, from the root. Above the working directory nothing is known but that there are
directories.
-/
namespace ExprLang.Command

inductive Entry where
  | file (bytes : ByteArray)
  | directory (entries : List (String × Entry))
  deriving Inhabited

/-- Why a path gives no text. -/
inductive Unreadable where
  | missing
  | isDirectory
  | notDirectory
  | notText
  deriving DecidableEq, Repr

namespace Unreadable

def reason : Unreadable → String
  | .missing => "No such file or directory (os error 2)"
  | .isDirectory => "Is a directory (os error 21)"
  | .notDirectory => "Not a directory (os error 20)"
  | .notText => "stream did not contain valid UTF-8"

end Unreadable

/-- The parts of a path between its slashes. -/
def parts (path : String) : List String := path.splitOn "/"

/-- Whether the part is a step, and not empty or the directory itself. -/
def isStep (part : String) : Bool := part ≠ "" ∧ part ≠ "."

/-- The last part of a path that names something, or the whole path if none does. -/
def fileName (path : String) : String :=
  match ((parts path).filter isStep).getLast? with
  | none => path
  | some ".." => path
  | some name => name

namespace Entry

/-- Follows the parts of a path. The directories above come with it, the nearest first. -/
def follow (above : List Entry) (here : Entry) : List String → Except Unreadable Entry
  | [] => .ok here
  | part :: rest =>
    match here with
    | .file _ => .error .notDirectory
    | .directory entries =>
      if !isStep part then follow above here rest
      else if part = ".." then follow above.tail (above.headD (.directory [])) rest
      else match entries.lookup part with
        | none => .error .missing
        | some entry => follow (here :: above) entry rest

/-- The text at the path, seen from the working directory. -/
def readText (working : Entry) (path : String) : Except Unreadable String := do
  let start := if path.startsWith "/" then .directory [] else working
  match ← follow [] start (parts path) with
  | .directory _ => .error .isDirectory
  | .file bytes =>
    match String.fromUTF8? bytes with
    | some text => .ok text
    | none => .error .notText

/-- Puts an entry where the parts lead, with the directories on the way. -/
def insert (here new : Entry) : List String → Entry
  | [] =>
    match here, new with
    | .directory entries, .directory [] => .directory entries
    | _, new => new
  | part :: rest =>
    match here with
    | .file _ => .directory [(part, insert (.directory []) new rest)]
    | .directory entries =>
      let old := (entries.lookup part).getD (.directory [])
      .directory ((part, insert old new rest) :: entries.filter fun entry => entry.1 ≠ part)

/-- The working directory that holds the entries under their paths. -/
def ofList (entries : List (String × Entry)) : Entry :=
  entries.foldl (fun working entry => working.insert entry.2 ((parts entry.1).filter isStep))
    (.directory [])

end Entry

end ExprLang.Command
