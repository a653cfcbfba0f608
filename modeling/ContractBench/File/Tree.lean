import ContractBench.File.System
import ContractBench.SortedMap
/-!
# Files in memory

A tree of files is a map from locations, the names from the root down, to files and directories.
Paths are resolved name by name from the root or the working directory: `.` stays, `..` goes up,
every name on the way must be a directory, and a slash at the end asks for a directory.
-/

namespace ContractBench

inductive FileEntry where
  | file (text : String)
  | dir
deriving DecidableEq, Inhabited

/-- The names from the root down to a file or directory. -/
abbrev Location := List String

structure FileTree where
  entries : SortedMap Location FileEntry := ∅
  /-- The working directory. -/
  cwd : Location := []
deriving DecidableEq, Inhabited

namespace FileTree

/-- Longest name in UTF-8 bytes, longest path likewise. -/
def maxNameBytes : Nat := 255

def maxPathBytes : Nat := 4095

/-- The entry at a location; the root is a directory. -/
def find? (t : FileTree) (l : Location) : Option FileEntry :=
  if l.isEmpty then some .dir else t.entries.get? l

/-! ## Resolving paths -/

/-- One name looked up in a directory. -/
def child (t : FileTree) (dir : Location) (name : String) :
    Except FileError (Location × FileEntry) :=
  if name == "." then .ok (dir, .dir)
  else if name == ".." then .ok (dir.dropLast, .dir)
  else if maxNameBytes < name.utf8ByteSize then .error .refused
  else
    match t.find? (dir ++ [name]) with
    | some e => .ok (dir ++ [name], e)
    | none => .error .notFound

/-- Names followed down from a directory; each must be a directory. -/
def descend (t : FileTree) (dir : Location) : List String → Except FileError Location
  | [] => .ok dir
  | name :: rest =>
    match t.child dir name with
    | .ok (l, .dir) => t.descend l rest
    | .ok (_, .file _) => .error .refused
    | .error e => .error e

/-- That a path can be asked for at all. -/
def checkAskable (p : FilePath) : Except FileError Unit :=
  if p.names.any fun name => name.toList.contains (Char.ofNat 0) then .error .refused
  else if maxPathBytes < p.text.utf8ByteSize then .error .refused
  else .ok ()

/-- The directory a path leads to and its last name; no name for a path without names. -/
def resolve (t : FileTree) (p : FilePath) : Except FileError (Location × Option String) := do
  checkAskable p
  let start := if p.absolute then [] else t.cwd
  match p.names.getLast? with
  | none => if p.absolute then return ([], none) else throw .notFound
  | some last => return (← t.descend start p.names.dropLast, some last)

/-- What a path names. -/
def lookup (t : FileTree) (p : FilePath) : Except FileError (Location × FileEntry) := do
  match ← t.resolve p with
  | (l, none) => return (l, .dir)
  | (dir, some name) =>
    match ← t.child dir name with
    | (l, .dir) => return (l, .dir)
    | (l, .file text) => if p.slash then throw .refused else return (l, .file text)

/-- The place for a new file or directory, and what is there. -/
def place (t : FileTree) (p : FilePath) : Except FileError (Location × Option FileEntry) := do
  match ← t.resolve p with
  | (_, none) => throw .refused
  | (dir, some name) =>
    if FilePath.isDots name then throw .refused
    else
      match t.child dir name with
      | .ok (l, e) => return (l, some e)
      | .error .notFound => return (dir ++ [name], none)
      | .error .refused => throw .refused

/-! ## Operations -/

def set (t : FileTree) (l : Location) (e : FileEntry) : FileTree :=
  { t with entries := t.entries.insert l e }

def makeDir (t : FileTree) (p : FilePath) : Except FileError FileTree := do
  match ← t.place p with
  | (l, none) => return t.set l .dir
  | (_, some _) => throw .refused

def isDir (t : FileTree) (p : FilePath) : Bool :=
  match t.lookup p with
  | .ok (_, .dir) => true
  | _ => false

def contains (t : FileTree) (p : FilePath) : Bool := (t.lookup p).toBool

def write (t : FileTree) (p : FilePath) (text : String) : Except FileError FileTree := do
  match ← t.place p with
  | (_, some .dir) => throw .refused
  | (l, _) => if p.slash then throw .refused else return t.set l (.file text)

def remove (t : FileTree) (p : FilePath) : Except FileError FileTree := do
  match ← t.place p with
  | (_, none) => throw .notFound
  | (_, some .dir) => throw .refused
  | (l, some (.file _)) =>
    if p.slash then throw .refused else return { t with entries := t.entries.erase l }

def move (t : FileTree) (source target : FilePath) : Except FileError FileTree := do
  match ← t.lookup source, ← t.place target with
  | (_, .dir), _ => throw .refused
  | _, (_, some .dir) => throw .refused
  | (l, .file text), (l', _) =>
    if target.slash then throw .refused
    else return { t with entries := (t.entries.erase l).insert l' (.file text) }

def read (t : FileTree) (p : FilePath) : Except FileError String := do
  match ← t.lookup p with
  | (_, .file text) => return text
  | (_, .dir) => throw .refused

/-- The entries below the working directory, each with its path from there. -/
def listing (t : FileTree) : List (String × FileEntry) :=
  t.entries.entries.filterMap fun (l, e) =>
    if t.cwd.isPrefixOf l && l.length != t.cwd.length then
      some ("/".intercalate (l.drop t.cwd.length), e)
    else none

end FileTree

/-! ## Programs on a tree -/

/-- A tree of files and what was printed. -/
structure Session where
  tree : FileTree := {}
  printed : String := ""
deriving DecidableEq, Inhabited

namespace Session

/-- An operation that changes the tree if it succeeds. -/
def change (op : FileTree → Except FileError FileTree) : StateM Session (Except FileError Unit) :=
  fun s =>
    match op s.tree with
    | .ok t => (.ok (), { s with tree := t })
    | .error e => (.error e, s)

instance : FileSystem (StateM Session) where
  makeDir p := change (·.makeDir p)
  isDir p := fun s => (s.tree.isDir p, s)
  exists? p := fun s => (s.tree.contains p, s)
  write p text := change (·.write p text)
  move source target := change (·.move source target)
  remove p := change (·.remove p)
  read p := fun s => (s.tree.read p, s)

instance : Terminal (StateM Session) where
  print text := fun s => ((), { s with printed := s.printed ++ text })

end Session

end ContractBench
