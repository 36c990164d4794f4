import CTree.CommandLine.Folder
import CTree.CommandLine.Options

/-!
# Replies

What the command line writes, and the status it ends with: 0, or 2 if the file cannot be read, or 1
if anything is wrong with it and the user asked to be told so.
-/

namespace CTree

/-- What came of reading a file. -/
inductive Reading
  | missing
  | unreadable (reason : String)
  | bytes (content : ByteArray)

/-- What comes of reading a file in a folder. -/
def Folder.read (f : Folder) (path : String) : Reading :=
  match f.find? path with
  | none => .missing
  | some .directory => .unreadable "Is a directory (os error 21)"
  | some (.file content) => .bytes content

/-- What a command leaves behind. -/
structure Reply where
  status : Nat
  stdout : String
  stderr : String
  deriving DecidableEq, Repr

/-- The reply of a command that cannot go on. -/
def Reply.failure (message : String) : Reply :=
  ⟨2, "", "Error: " ++ message ++ "\n"⟩

/-- The reply about a file that cannot be read. -/
def Reply.unreadable (file reason : String) : Reply :=
  .failure ("Could not read '" ++ file ++ "': " ++ reason)

namespace Options

/-- The dialect to read: the one asked for, or else that of the extension. -/
def dialect (o : Options) : Dialect :=
  match o.dialect?, FilePath.extension? o.file with
  | some dialect, _ => dialect
  | none, some extension => .ofExtension extension
  | none, none => .cpp

/-- The settings of the parse. -/
def settings (o : Options) : Settings :=
  let base : Settings := { dialect := o.dialect }
  { base with maxDepth := o.maxDepth?.getD base.maxDepth }

/-- The name of the program. -/
def unitName (o : Options) : String :=
  (FilePath.stem? o.file).getD "translation_unit"

/-- The reply about a text. -/
def replyTo (o : Options) (text : String) : Reply :=
  let outcome := parse o.settings o.unitName text.toList
  let stdout := String.ofList (Text.trimRight (outcome.render (!o.compact) o.format).toList) ++ "\n"
  if o.strict && outcome.hasErrors then
    ⟨1, stdout, toString outcome.diagnostics.length ++ " error(s) in " ++ o.file ++ "\n"⟩
  else ⟨0, stdout, ""⟩

/-- The reply about what came of reading the file. -/
def reply (o : Options) : Reading → Reply
  | .missing => .failure ("File '" ++ o.file ++ "' not found")
  | .unreadable reason => .unreadable o.file reason
  | .bytes content =>
    match String.fromUTF8? content with
    | some text => o.replyTo text
    | none => .unreadable o.file "stream did not contain valid UTF-8"

end Options

end CTree
