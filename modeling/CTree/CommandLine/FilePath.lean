/-!
# Paths of files

A path is a text of components with slashes between them. The last component is the name of the
file, and the name is a stem and an extension.
-/

namespace CTree

namespace FilePath

/-- A text, cut at every slash. -/
def split : List Char → List (List Char)
  | [] => [[]]
  | c :: cs =>
    if c = '/' then [] :: split cs
    else
      match split cs with
      | part :: parts => (c :: part) :: parts
      | [] => [[c]]

/-- The components of a path. An empty one and `.` stand for the directory itself, `..` for the one
around it. -/
def components (path : String) : List String :=
  (split path.toList).map String.ofList

/-- Whether a component stands for the directory itself. -/
def isHere (component : String) : Bool :=
  component == "" || component == "."

/-- Whether a path starts at the root of all directories. -/
def isAbsolute (path : String) : Bool :=
  path.toList.head? == some '/'

/-- The name of the file under a path, if the path ends in a name. -/
def fileName? (path : String) : Option String :=
  match ((components path).filter (!isHere ·)).getLast? with
  | some ".." => none
  | name? => name?

/-- A name, cut at its last dot: the stem and the extension. A dot in front of the name does not
count. -/
def cut (name : String) : String × Option String :=
  let cs := name.toList.reverse
  let extension := (cs.takeWhile (· != '.')).reverse
  match (cs.drop (extension.length + 1)).reverse with
  | [] => (name, none)
  | stem => (String.ofList stem, some (String.ofList extension))

/-- The stem of the file under a path. -/
def stem? (path : String) : Option String :=
  (fileName? path).map (cut · |>.1)

/-- The extension of the file under a path. -/
def extension? (path : String) : Option String :=
  (fileName? path).bind (cut · |>.2)

end FilePath

end CTree
