import NullSafety.Report.Pathname
import NullSafety.Text.Quoted

/-!
A folder of text files without folders in it. A path may climb out of it, or start at the root;
outside there are the folders on the way up, and no file that was not written there.
-/

namespace NullSafety

/-- Why a file cannot be read or written. -/
inductive FileError where
  | noSuchFile (path : Pathname)
  | isDirectory (path : Pathname)
  | notDirectory (path : Pathname)
  | nameTooLong (path : Pathname)
  deriving DecidableEq, Repr

def FileError.message : FileError → String
  | .noSuchFile path => "[Errno 2] No such file or directory: " ++ Text.quoted path.text
  | .isDirectory path => "[Errno 21] Is a directory: " ++ Text.quoted path.text
  | .notDirectory path => "[Errno 20] Not a directory: " ++ Text.quoted path.text
  | .nameTooLong path => "[Errno 36] File name too long: " ++ Text.quoted path.text

structure Folder where
  /-- Paths and contents of the files. -/
  files : List (Pathname × String) := []
  /-- The paths of those that were written since. -/
  written : List Pathname := []

namespace Folder

/-- A folder with these files in it. -/
def ofFiles (files : List (String × String)) : Folder :=
  { files := files.map fun (name, content) => (Pathname.ofString name, content) }

def get? (d : Folder) (p : Pathname) : Option String := d.files.lookup p

/-- Follows a path to where a file may be. Every name but the last would have to be that of a
folder. The path as a whole is measured first, and then each name when it is reached. -/
def follow (d : Folder) (p : Pathname) : Except FileError Unit :=
  if Pathname.textLimit < p.text.utf8ByteSize then .error (.nameTooLong p)
  else
    match p.descent with
    | [] => .error (.isDirectory p)
    | name :: rest =>
      if Pathname.nameLimit < name.utf8ByteSize then .error (.nameTooLong p)
      else if rest = [] then .ok ()
      else if (d.get? { p with names := p.ascent ++ [name] }).isSome then .error (.notDirectory p)
      else .error (.noSuchFile p)

def read (d : Folder) (p : Pathname) : Except FileError String := do
  d.follow p
  match d.get? p with
  | some content => .ok content
  | none => .error (.noSuchFile p)

/-- Whether a path leads to a file that is there. A path that is too long gives no answer. -/
def hasFile (d : Folder) (p : Pathname) : Except FileError Bool :=
  match d.read p with
  | .ok _ => .ok true
  | .error (.nameTooLong p) => .error (.nameTooLong p)
  | .error _ => .ok false

/-- Writes a file, in place of one that is there. -/
def write (d : Folder) (p : Pathname) (content : String) : Except FileError Folder := do
  d.follow p
  .ok ⟨(d.files.filter fun file => file.1 ≠ p) ++ [(p, content)], d.written ++ [p]⟩

/-- The files that were written to the folder itself. -/
def writtenFiles (d : Folder) : List (String × String) :=
  (d.files.filter fun file => file.1.isHere && d.written.contains file.1).map fun (p, content) =>
    (p.text, content)

end Folder

end NullSafety
