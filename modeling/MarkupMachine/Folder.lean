/-! A folder of files by their names, which may have folders of their own in front, and what
becomes of reading at a path. -/

namespace MarkupMachine

/-! ### Paths -/

namespace Path

def parts : List Char → List (List Char)
  | [] => [[]]
  | '/' :: rest => [] :: parts rest
  | c :: rest =>
    match parts rest with
    | [] => [[c]]
    | first :: others => (c :: first) :: others

def stays (part : List Char) : Bool := part == [] || part == ['.']

def steps (path : String) : List String :=
  ((parts path.toList).filter fun part => !stays part).map String.ofList

end Path

/-! ### Folders -/

inductive Unreadable where
  | missing
  | belowFile
  | folder
  deriving DecidableEq, Repr

def Unreadable.message : Unreadable → String
  | .missing => "No such file or directory (os error 2)"
  | .belowFile => "Not a directory (os error 20)"
  | .folder => "Is a directory (os error 21)"

abbrev Folder := List (String × String)

namespace Folder

def hasFolder (name : String) (folder : Folder) : Bool :=
  folder.any fun file => (name ++ "/").isPrefixOf file.1

/-- Goes down the parts of a path from the folder at some names, the innermost first. What is
outside the whole folder is not there. -/
def readBelow (folder : Folder) : List String → List (List Char) → Except Unreadable String
  | _, [] => .error .folder
  | above, part :: rest =>
    if Path.stays part then readBelow folder above rest
    else if part = ['.', '.'] then
      match above with
      | [] => .error (if rest.all Path.stays then .folder else .missing)
      | _ :: above => readBelow folder above rest
    else
      let above := String.ofList part :: above
      let name := "/".intercalate above.reverse
      match folder.lookup name with
      | some text => if rest.isEmpty then .ok text else .error .belowFile
      | none => if folder.hasFolder name then readBelow folder above rest else .error .missing

/-- Reads at a path, which is below the folder unless it begins with a slash. -/
def read (folder : Folder) (path : String) : Except Unreadable String :=
  match Path.parts path.toList with
  | [] | [[]] => .error .missing
  | [] :: rest => .error (if rest.all Path.stays then .folder else .missing)
  | parts => readBelow folder [] parts

end Folder
end MarkupMachine
