import ChessEval.Command.Run

/-!
# File trees

A file tree is a directory with everything in it. The operations on files follow the paths in it name
by name, and fail where a directory is missing or where a file stands in the place of one.
-/

namespace ChessEval.Command

/-- What stands at a place of a file tree. -/
inductive Entry where
  | directory
  | file (bytes : ByteArray)

/-- The entries of a directory by the names on the way to them. -/
abbrev FileTree := List (List String × Entry)

/-- Where a path leads: to a directory that is named by points, or to a name in a directory. -/
inductive Target where
  | directory
  | name (place : List String) (slash : Bool)
deriving DecidableEq, Repr

namespace FileTree

def find? (t : FileTree) (place : List String) : Option Entry :=
  if place.isEmpty then some .directory else t.lookup place

def erase (t : FileTree) (place : List String) : FileTree :=
  t.filter fun (p, _) => p ≠ place

def insert (t : FileTree) (place : List String) (e : Entry) : FileTree :=
  (place, e) :: t.erase place

def makeParents (t : FileTree) (place : List String) : FileTree :=
  ((List.range place.length).map place.take).foldl
    (fun t p => if (t.find? p).isSome then t else (p, .directory) :: t) t

/-- The tree with an entry at the end of a path of plain names, and with the directories on the way. -/
def add (t : FileTree) (path : String) (e : Entry) : FileTree :=
  let place := (Path.segments path).filter fun s => !Path.isIdle s
  (t.makeParents place).insert place e

def maxNameBytes : Nat := 255

def maxPathBytes : Nat := 4095

/-- The place after following names from a directory, each of which must lead to a directory. -/
def walk (t : FileTree) (place : List String) : List String → Except FileError (List String)
  | [] => .ok place
  | name :: rest =>
    if name = "." then walk t place rest
    else if name = ".." then walk t place.dropLast rest
    else if maxNameBytes < name.utf8ByteSize then .error .nameTooLong
    else
      match t.find? (place ++ [name]) with
      | some .directory => walk t (place ++ [name]) rest
      | some (.file _) => .error .notDirectory
      | none => .error .notFound

def locate (t : FileTree) (path : String) : Except FileError Target := do
  let segments := (Path.segments path).filter fun s => s ≠ ""
  if maxPathBytes < path.utf8ByteSize then .error .nameTooLong
  match segments.getLast? with
  | none => if path = "" then .error .notFound else .ok .directory
  | some last =>
    let directory ← t.walk [] segments.dropLast
    if last = "." ∨ last = ".." then .ok .directory
    else if maxNameBytes < last.utf8ByteSize then .error .nameTooLong
    else .ok (.name (directory ++ [last]) (path.toList.getLast? = some '/'))

def read (t : FileTree) (path : String) : Except FileError String := do
  match ← t.locate path with
  | .directory => .error .isDirectory
  | .name place slash =>
    match t.find? place with
    | none => .error .notFound
    | some .directory => .error .isDirectory
    | some (.file bytes) =>
      if slash then .error .notDirectory
      else
        match String.fromUTF8? bytes with
        | some text => .ok text
        | none => .error .invalidText

def write (t : FileTree) (path contents : String) : Except FileError FileTree := do
  match ← t.locate path with
  | .directory => .error .isDirectory
  | .name place slash =>
    match t.find? place, slash with
    | some .directory, _ => .error .isDirectory
    | _, true => .error .isDirectory
    | _, false => .ok (t.insert place (.file contents.toUTF8))

/-- The tree after a file has been moved. A file can replace a file but not a directory. -/
def rename (t : FileTree) (source target : String) : Except FileError FileTree := do
  match ← t.locate source, ← t.locate target with
  | .name old oldSlash, .name new newSlash =>
    match t.find? old with
    | some (.file bytes) =>
      if oldSlash || newSlash then .error .notDirectory
      else
        match t.find? new with
        | some .directory => .error .isDirectory
        | _ => .ok ((t.erase old).insert new (.file bytes))
    | some .directory => .error .isDirectory
    | none => .error .notFound
  | _, _ => .error .busy

def remove (t : FileTree) (path : String) : Except FileError FileTree := do
  match ← t.locate path with
  | .directory => .error .isDirectory
  | .name place slash =>
    match t.find? place with
    | none => .error .notFound
    | some .directory => .error .isDirectory
    | some (.file _) => if slash then .error .notDirectory else .ok (t.erase place)

def change (operation : FileTree → Except FileError FileTree) :
    StateM FileTree (Except FileError Unit) := do
  match operation (← get) with
  | .ok t =>
    set t
    return .ok ()
  | .error e => return .error e

def access : FileAccess (StateM FileTree) where
  read path := return (← get).read path
  write path contents := change fun t => t.write path contents
  rename source target := change fun t => t.rename source target
  remove path := change fun t => t.remove path

end FileTree

def runIn (t : FileTree) (args : List String) : Option Outcome × FileTree :=
  (run FileTree.access args).run t

end ChessEval.Command
