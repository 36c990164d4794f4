import CTree.CommandLine.FilePath

/-!
# Folders

A folder holds files and directories under their paths. `Folder.find?` follows a path component by
component, as a file system does: only a directory can be passed through. Nothing is known of what
lies around the folder but that it is a directory.
-/

namespace CTree

/-- What stands under a path. -/
inductive Entry
  | directory
  | file (content : ByteArray)

/-- Files and directories by the names on the way to them. -/
structure Folder where
  entries : List (List String × Entry)

/-- Where a path leads. -/
inductive Location
  /-- The place in the folder that the given names lead to. -/
  | inside (names : List String)
  /-- A directory around the folder. -/
  | outside
  deriving DecidableEq, Repr

namespace Folder

/-- The folder with the given entries, each under its path. -/
def ofList (entries : List (String × Entry)) : Folder :=
  ⟨entries.map fun (path, e) => ((FilePath.components path).filter (!FilePath.isHere ·), e)⟩

/-- What stands at a location. The directories on the way to an entry are there as well. -/
def entryAt? (f : Folder) : Location → Option Entry
  | .outside => some .directory
  | .inside [] => some .directory
  | .inside names =>
    match f.entries.lookup names with
    | some e => some e
    | none => if f.entries.any (names.isPrefixOf ·.1) then some .directory else none

/-- Where a component leads from a directory. -/
def follow (component : String) : Location → Option Location
  | .inside names =>
    if FilePath.isHere component then some (.inside names)
    else if component == ".." then some (if names.isEmpty then .outside else .inside names.dropLast)
    else some (.inside (names ++ [component]))
  | .outside =>
    if FilePath.isHere component || component == ".." then some .outside else none

/-- Where a component leads from a location, which has to be a directory. -/
def step (f : Folder) (here : Location) (component : String) : Option Location :=
  match f.entryAt? here with
  | some .directory => follow component here
  | _ => none

/-- What stands under a path. -/
def find? (f : Folder) (path : String) : Option Entry := do
  let start := if FilePath.isAbsolute path then Location.outside else .inside []
  f.entryAt? (← (FilePath.components path).foldlM f.step start)

end Folder

end CTree
