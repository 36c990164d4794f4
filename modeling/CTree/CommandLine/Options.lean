import CTree.Outcome

/-!
# Options

The arguments of the command line: one file, and options before or after it. After `--` every
argument is a file. Arguments are read from left to right, and the first one that cannot be read,
or asks for information, ends the reading.
-/

namespace CTree

/-- Why the command line asks for no parse. -/
inductive Halt
  /-- The arguments cannot be read. -/
  | refusal
  /-- The user asks how the command is used. -/
  | help
  /-- The user asks for the version of the command. -/
  | version
  deriving DecidableEq, Repr

/-- What the user asks for. -/
structure Options where
  file : String
  dialect? : Option Dialect
  format : Format
  maxDepth? : Option Nat
  compact : Bool
  strict : Bool
  deriving DecidableEq, Repr

/-- What the arguments so far ask for. -/
structure PartialOptions where
  file? : Option String := none
  dialect? : Option Dialect := none
  format? : Option Format := none
  maxDepth? : Option Nat := none
  compact : Bool := false
  strict : Bool := false
  deriving DecidableEq, Repr

/-- The options that take a value. -/
inductive ValueOption
  | dialect
  | format
  | maxDepth
  deriving DecidableEq, Repr

/-- The option of the given name that takes a value. -/
def ValueOption.ofName? : String → Option ValueOption
  | "dialect" => some .dialect
  | "format" => some .format
  | "max-depth" => some .maxDepth
  | _ => none

/-- The options that take no value. -/
inductive Flag
  | compact
  | strict
  | verbose
  | help
  | version
  deriving DecidableEq, Repr

/-- The flag of the given name. -/
def Flag.ofName? : String → Option Flag
  | "compact" => some .compact
  | "strict" => some .strict
  | "verbose" => some .verbose
  | "help" => some .help
  | "version" => some .version
  | _ => none

/-- The flag of the given letter. -/
def Flag.ofLetter? : Char → Option Flag
  | 'v' => some .verbose
  | 'h' => some .help
  | 'V' => some .version
  | _ => none

/-- The dialect of the given name. -/
def Dialect.ofName? : String → Option Dialect
  | "c" => some .c
  | "cpp" => some .cpp
  | _ => none

/-- The format of the given name. -/
def Format.ofName? : String → Option Format
  | "json" => some .json
  | "tree" => some .tree
  | "errors" => some .errors
  | _ => none

/-- A number of 64 bits in decimal digits, perhaps after a plus sign. -/
def decimal64? (text : String) : Option Nat :=
  let digits := match text.toList with
    | '+' :: cs => cs
    | cs => cs
  let value := Literal.digitsValue 10 0 digits
  if !digits.isEmpty && digits.all Char.isDigit && value < UInt64.size then some value else none

/-- The shape of an argument. -/
inductive Argument
  /-- `--`. -/
  | separator
  /-- `--name` or `--name=value`. -/
  | long (name : String) (value? : Option String)
  /-- `-abc`. -/
  | short (letters : List Char)
  | plain (text : String)
  deriving DecidableEq, Repr

/-- The shape of the given argument; a `-` by itself is plain. -/
def Argument.ofString (text : String) : Argument :=
  match text.toList with
  | ['-', '-'] => .separator
  | '-' :: '-' :: cs =>
    let name := String.ofList (cs.takeWhile (· != '='))
    match cs.dropWhile (· != '=') with
    | [] => .long name none
    | _ :: value => .long name (some (String.ofList value))
  | '-' :: c :: cs => .short (c :: cs)
  | _ => .plain text

namespace PartialOptions

/-- The first value of something, which must not be given twice, and must be readable. -/
def once {α : Type} (given? value? : Option α) : Except Halt (Option α) :=
  match given?, value? with
  | none, some a => .ok (some a)
  | _, _ => .error .refusal

/-- The options with a file. -/
def setFile (o : PartialOptions) (file : String) : Except Halt PartialOptions := do
  let value? := if file.isEmpty then none else some file
  return { o with file? := ← once o.file? value? }

/-- The options with the value of an option. -/
def setValue (o : PartialOptions) (value : String) : ValueOption → Except Halt PartialOptions
  | .dialect => return { o with dialect? := ← once o.dialect? (Dialect.ofName? value) }
  | .format => return { o with format? := ← once o.format? (Format.ofName? value) }
  | .maxDepth => return { o with maxDepth? := ← once o.maxDepth? (decimal64? value) }

/-- The options with a flag. Only `verbose`, which changes nothing, may be repeated. -/
def setFlag (o : PartialOptions) : Option Flag → Except Halt PartialOptions
  | some .compact => if o.compact then .error .refusal else .ok { o with compact := true }
  | some .strict => if o.strict then .error .refusal else .ok { o with strict := true }
  | some .verbose => .ok o
  | some .help => .error .help
  | some .version => .error .version
  | none => .error .refusal

/-- The options with the arguments that follow; `pending?` is an option that still lacks its
value. -/
def read (o : PartialOptions) (pending? : Option ValueOption) :
    List String → Except Halt PartialOptions
  | [] => if pending?.isSome then .error .refusal else .ok o
  | argument :: rest =>
    match Argument.ofString argument, pending? with
    | .plain value, some option => do (← o.setValue value option).read none rest
    | _, some _ => .error .refusal
    | .plain file, none => do (← o.setFile file).read none rest
    | .separator, none => rest.foldlM setFile o
    | .short letters, none => do
      (← letters.foldlM (fun o c => o.setFlag (Flag.ofLetter? c)) o).read none rest
    | .long name value?, none =>
      match ValueOption.ofName? name, value? with
      | some option, none => o.read (some option) rest
      | some option, some value => do (← o.setValue value option).read none rest
      | none, none => do (← o.setFlag (Flag.ofName? name)).read none rest
      | none, some _ => .error .refusal

/-- The options, if a file is among them. -/
def complete (o : PartialOptions) : Except Halt Options :=
  match o.file? with
  | some file => .ok ⟨file, o.dialect?, o.format?.getD .json, o.maxDepth?, o.compact, o.strict⟩
  | none => .error .refusal

end PartialOptions

/-- What the given arguments ask for. -/
def Options.ofArguments (arguments : List String) : Except Halt Options := do
  (← PartialOptions.read {} none arguments).complete

end CTree
