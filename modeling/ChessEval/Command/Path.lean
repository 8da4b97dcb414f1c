/-!
# Paths

A path is a text with slashes between the names of directories and a file. Empty names and single
points between slashes lead nowhere, but they count for the length of the path, so a path beside
another one keeps those of its directory.
-/

namespace ChessEval.Command.Path

/-- The texts between slashes, of which `current` has been read already, latest character first. -/
def splitFrom (current : List Char) : List Char → List (List Char)
  | [] => [current.reverse]
  | '/' :: rest => current.reverse :: splitFrom [] rest
  | c :: rest => splitFrom (c :: current) rest

def segments (path : String) : List String :=
  (splitFrom [] path.toList).map String.ofList

def isIdle (segment : String) : Bool :=
  segment == "" || segment == "."

/-- Segments without the idle ones at the end. The first one stays, since it tells where the path
begins. -/
def trimEnd : List String → List String
  | [] => []
  | first :: rest => first :: (rest.reverse.dropWhile isIdle).reverse

/-- The name of the file that a path leads to. A path that ends in two points has none. -/
def fileName? (path : String) : Option String :=
  match (trimEnd (segments path)).getLast? with
  | some name => if isIdle name || name == ".." then none else some name
  | none => none

def ofSegments : List String → String
  | [""] => "/"
  | segments => "/".intercalate segments

/-- The directory that holds the file a path leads to, or the path itself if it leads to no file. -/
def directory (path : String) : String :=
  if (fileName? path).isSome then ofSegments (trimEnd (trimEnd (segments path)).dropLast) else path

def separator (directory : String) : String :=
  match directory.toList.getLast? with
  | none => ""
  | some c => if c = '/' then "" else "/"

def beside (path name : String) : String :=
  directory path ++ separator (directory path) ++ name

/-- The path of the temporary file that is written before the file itself. -/
def temporary (path : String) : String :=
  beside path ("." ++ (fileName? path).getD "output" ++ ".tmp")

end ChessEval.Command.Path
