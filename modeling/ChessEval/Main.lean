import ChessEval.Command.Run

/-!
# The program

Runs the command on the files of the system.
-/

namespace ChessEval.Command

/-- The code and the wording that the system gives for a failed operation. -/
def systemDetails? : IO.Error → Option (UInt32 × String)
  | .alreadyExists _ code details | .interrupted _ code details
  | .noFileOrDirectory _ code details | .invalidArgument _ code details
  | .permissionDenied _ code details | .resourceExhausted _ code details
  | .inappropriateType _ code details | .noSuchThing _ code details => some (code, details)
  | .otherError code details | .resourceBusy code details | .resourceVanished code details
  | .unsupportedOperation code details | .hardwareFault code details
  | .unsatisfiedConstraints code details | .illegalOperation code details
  | .protocolError code details | .timeExpired code details => some (code, details)
  | .unexpectedEof | .userError _ => none

/-- An error code without its sign. Some operations of the system negate the code. -/
def errorCode (code : UInt32) : Nat :=
  min code.toNat (0 - code).toNat

def FileError.ofCode (code : Nat) (details : String) : FileError :=
  match code with
  | 2 => .notFound
  | 16 => .busy
  | 20 => .notDirectory
  | 21 => .isDirectory
  | 36 => .nameTooLong
  | code => .other (details ++ " (os error " ++ toString code ++ ")")

def FileError.ofSystem (e : IO.Error) : FileError :=
  match systemDetails? e with
  | some (code, details) => .ofCode (errorCode code) details
  | none => .other (toString e)

/-- A system operation whose failure is a result. -/
def attempt {α : Type} (action : IO α) : IO (Except FileError α) := do
  try
    return .ok (← action)
  catch e =>
    return .error (.ofSystem e)

def readSystem (path : String) : IO (Except FileError String) := do
  match ← attempt (IO.FS.readBinFile path) with
  | .error e => return .error e
  | .ok bytes =>
    match String.fromUTF8? bytes with
    | some text => return .ok text
    | none => return .error .invalidText

def system : FileAccess IO where
  read := readSystem
  write path contents := attempt (IO.FS.writeFile path contents)
  rename source target := attempt (IO.FS.rename source target)
  remove path := attempt (IO.FS.removeFile path)

end ChessEval.Command

def main (args : List String) : IO UInt32 := do
  match ← ChessEval.Command.run ChessEval.Command.system args with
  | some outcome =>
    IO.print outcome.stdout
    IO.eprint outcome.stderr
    return outcome.exit.toUInt32
  | none =>
    IO.eprintln "The types of the program never settle"
    return 1
