/-!
# Command line options
-/

namespace ChessEval.Command

/-- What the arguments of the command ask for. -/
structure Options where
  input : Option String := none
  output : String := "generated_eval.cpp"
  treeFile : Option String := none
  checkOnly : Bool := false
  help : Bool := false
deriving DecidableEq, Repr

/-- What is wrong with the arguments. -/
inductive OptionError where
  | missingOutput
  | missingTreeFile
  | unknownOption (flag : String)
  | severalInputs
deriving DecidableEq, Repr

def OptionError.message : OptionError → String
  | .missingOutput => "-o expects a file name"
  | .missingTreeFile => "-ast expects a file name"
  | .unknownOption flag => "Unknown option " ++ flag
  | .severalInputs => "Only one input file can be compiled at a time"

namespace Options

/-- How the names of output files end. -/
def extension : String := ".cpp"

/-- A file name with the ending of output files, added unless it is there. -/
def withExtension (name : String) : String :=
  if extension.toList.isSuffixOf name.toList then name else name ++ extension

/-- The options after further arguments. The file name after `-o` or `-ast` can be any text. -/
def addAll (o : Options) : List String → Except OptionError Options
  | [] => .ok o
  | "-help" :: rest => addAll { o with help := true } rest
  | "-nocomp" :: rest => addAll { o with checkOnly := true } rest
  | "-o" :: name :: rest => addAll { o with output := withExtension name } rest
  | "-o" :: [] => .error .missingOutput
  | "-ast" :: name :: rest => addAll { o with treeFile := some name } rest
  | "-ast" :: [] => .error .missingTreeFile
  | argument :: rest =>
    if argument.toList.head? = some '-' then .error (.unknownOption argument)
    else if o.input.isSome then .error .severalInputs
    else addAll { o with input := some argument } rest

def ofArgs (args : List String) : Except OptionError Options :=
  addAll {} args

end Options

def usage : String :=
  "Usage: chespel [-help] [-nocomp] [-o <out>] [-ast <file>] <input>\n\n" ++
  "Options:\n" ++
  "    -help        Show this message\n" ++
  "    -nocomp      Check the program without generating code\n" ++
  "    -o <out>     Output file (default: generated_eval.cpp, `.cpp` is appended if missing)\n" ++
  "    -ast <file>  Write the parsed tree to <file>"

end ChessEval.Command
