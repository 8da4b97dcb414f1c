import ChessEval.Command.Options
import ChessEval.Command.Path
import ChessEval.Compilation
import ChessEval.Program.Dump

/-!
# The command

The command reads a program, writes the files it is asked for, and reports what it finds. It reaches
files only through four operations, each of which can fail. A file is first written beside its place
and then moved there, so that a failure never leaves half of it.
-/

namespace ChessEval.Command

/-- Why an operation on a file failed. -/
inductive FileError where
  | notFound
  | busy
  | notDirectory
  | isDirectory
  | nameTooLong
  | invalidText
  | other (message : String)
deriving DecidableEq, Repr

def FileError.message : FileError → String
  | .notFound => "No such file or directory (os error 2)"
  | .busy => "Device or resource busy (os error 16)"
  | .notDirectory => "Not a directory (os error 20)"
  | .isDirectory => "Is a directory (os error 21)"
  | .nameTooLong => "File name too long (os error 36)"
  | .invalidText => "stream did not contain valid UTF-8"
  | .other message => message

structure FileAccess (m : Type → Type) where
  read : String → m (Except FileError String)
  write : String → String → m (Except FileError Unit)
  rename : String → String → m (Except FileError Unit)
  remove : String → m (Except FileError Unit)

/-- The result of a run: the exit code and the texts on both outputs. -/
structure Outcome where
  exit : Nat
  stdout : String
  stderr : String
deriving DecidableEq, Repr

namespace Outcome

def success (stderr : String) : Outcome :=
  ⟨0, "", stderr⟩

def failure (stderr : String) : Outcome :=
  ⟨1, "", stderr⟩

def misuse (message : String) : Outcome :=
  failure (message ++ "\n\n" ++ usage ++ "\n")

end Outcome

section

variable {m : Type → Type} [Monad m]

def abandon (fs : FileAccess m) (temporary : String) (e : FileError) :
    m (Except FileError Unit) := do
  let _ ← fs.remove temporary
  return .error e

def writeOutput (fs : FileAccess m) (path contents : String) : m (Except FileError Unit) := do
  let temporary := Path.temporary path
  match ← fs.write temporary contents with
  | .error e => abandon fs temporary e
  | .ok () =>
    match ← fs.rename temporary path with
    | .error e => abandon fs temporary e
    | .ok () => return .ok ()

def writeOr (fs : FileAccess m) (reported path contents : String) (next : m (Option Outcome)) :
    m (Option Outcome) := do
  match ← writeOutput fs path contents with
  | .error e =>
    return some (.failure (reported ++ "Failed to write " ++ path ++ ": " ++ e.message ++ "\n"))
  | .ok () => next

/-- Reports on a compilation that has gone as far as it was asked to, and writes its output. -/
def finish (fs : FileAccess m) (o : Options) (c : Compilation) : m (Option Outcome) := do
  let warnings := if c.diagnostics.hasWarnings then c.diagnostics.renderWarnings else ""
  if c.stage = .failed then return some (.failure (warnings ++ c.diagnostics.renderErrors))
  else
    match c.output with
    | none => return some (.success warnings)
    | some output =>
      writeOr fs warnings o.output output (pure (some (.success warnings)))

/-- Takes a program through the stages that the options ask for. There is no outcome if its types
never settle. -/
def compile (fs : FileAccess m) (o : Options) (p : Program) : m (Option Outcome) := do
  let c := Compilation.ofProgram p
  match if o.checkOnly then c.check.infer else c.run with
  | none => return none
  | some c => finish fs o c

def compileFile (fs : FileAccess m) (o : Options) (input : String) : m (Option Outcome) := do
  match ← fs.read input with
  | .error e => return some (.failure ("Failed to read " ++ input ++ ": " ++ e.message ++ "\n"))
  | .ok source =>
    match Program.ofSource source ((Path.fileName? input).getD input) with
    | .error fault => return some (.failure (fault.shown source input))
    | .ok p =>
      match o.treeFile with
      | none => compile fs o p
      | some path => writeOr fs "" path (p.dump.text ++ "\n") (compile fs o p)

def run (fs : FileAccess m) (args : List String) : m (Option Outcome) :=
  match Options.ofArgs args with
  | .error e => return some (.misuse e.message)
  | .ok o =>
    if o.help then return some ⟨0, usage ++ "\n", ""⟩
    else
      match o.input with
      | none => return some (.misuse "No input file provided")
      | some input => compileFile fs o input

end

end ChessEval.Command
