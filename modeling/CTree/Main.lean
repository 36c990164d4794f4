import CTree.CommandLine.Reply

/-!
# The command

Reads the file that the arguments name, and writes what the library makes of it.
-/

namespace CTree.Main

/-- How the command is used. -/
def usage : String :=
  "Usage: ctree [OPTIONS] FILE\n\n" ++
  "Parses C and C++ source into an abstract syntax tree.\n\n" ++
  "Options:\n" ++
  "  --dialect c|cpp            read this dialect, whatever the extension of FILE\n" ++
  "  --format json|tree|errors  write the tree as JSON (default) or as an outline,\n" ++
  "                             or the diagnostics only\n" ++
  "  --max-depth N              ceiling on nested constructs\n" ++
  "  --compact                  write JSON on a single line\n" ++
  "  --strict                   exit with status 1 if there are diagnostics\n" ++
  "  -v, --verbose              accepted and ignored\n" ++
  "  -h, --help                 write this text\n" ++
  "  -V, --version              write the version\n"

/-- The number of an error of the system, which may come negated. -/
def errorNumber (code : UInt32) : UInt32 :=
  if code < 0x80000000 then code else 0 - code

/-- The number of the error that a path leads through something that is no directory. -/
def notADirectory : UInt32 := 20

/-- Reads a file. A path that leads nowhere is a missing file. -/
def readFile (path : String) : IO Reading := do
  try
    return .bytes (← IO.FS.readBinFile path)
  catch e =>
    match e with
    | .noFileOrDirectory .. => return .missing
    | .inappropriateType _ code details | .permissionDenied _ code details =>
      let number := errorNumber code
      if number == notADirectory then return .missing
      else return .unreadable (details ++ " (os error " ++ toString number ++ ")")
    | e => return .unreadable (toString e)

/-- Writes a reply; the status to exit with. -/
def write (r : Reply) : IO UInt32 := do
  IO.print r.stdout
  IO.eprint r.stderr
  return r.status.toUInt32

end CTree.Main

open CTree Main in
/-- Runs the command with the given arguments. -/
def main (arguments : List String) : IO UInt32 :=
  match Options.ofArguments arguments with
  | .ok o => do write (o.reply (← readFile o.file))
  | .error .help => write ⟨0, usage, ""⟩
  | .error .version => write ⟨0, "ctree 0.1.0\n", ""⟩
  | .error .refusal => write ⟨2, "", usage⟩
