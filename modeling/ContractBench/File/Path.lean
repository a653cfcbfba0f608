/-!
# File paths

A path is kept as it was written: pieces of text with slashes between them, empty where slashes
meet. For a file system every piece that is not empty is a name, and a slash at the end counts.
Read by itself, a path also loses the pieces `.` except one at its start: what remains are its
components, the last of which names a file unless it is a dot name.
-/

namespace ContractBench

structure FilePath where
  /-- Whether the path starts with a slash. -/
  absolute : Bool
  /-- The pieces between slashes, behind the slash at the start. -/
  pieces : List String
deriving DecidableEq, Inhabited

namespace FilePath

/-- A text cut at its slashes. -/
def split : List Char → List (List Char)
  | [] => [[]]
  | c :: cs =>
    match split cs with
    | [] => [[c]]
    | p :: ps => if c = '/' then [] :: p :: ps else (c :: p) :: ps

def ofString (s : String) : FilePath :=
  match s.toList with
  | '/' :: cs => ⟨true, (split cs).map String.ofList⟩
  | cs => ⟨false, (split cs).map String.ofList⟩

def text (p : FilePath) : String :=
  (if p.absolute then "/" else "") ++ "/".intercalate p.pieces

/-! ## As a file system reads it -/

def names (p : FilePath) : List String := p.pieces.filter (· != "")

/-- Whether a slash stands behind the last name. -/
def slash (p : FilePath) : Bool := !p.names.isEmpty && p.pieces.getLast? == some ""

/-- Whether this is the path without any text. -/
def isEmpty (p : FilePath) : Bool := !p.absolute && p.names.isEmpty

/-- Whether a name stands for a directory relative to another. -/
def isDots (name : String) : Bool := name == "." || name == ".."

/-! ## Read by itself -/

/-- The components with their positions among the pieces. -/
def marks (p : FilePath) : List (String × Nat) :=
  p.pieces.zipIdx.filter fun (piece, n) =>
    piece != "" && (piece != "." || (n == 0 && !p.absolute))

/-- The names that count when a path is read by itself. -/
def components (p : FilePath) : List String := p.marks.map (·.1)

/-- The paths that end with a component each, from the first component on. -/
def ancestors (p : FilePath) : List FilePath :=
  p.marks.map fun m => ⟨p.absolute, p.pieces.take (m.2 + 1)⟩

/-- The path up to its last component but one; nothing if it has no component. -/
def parent? (p : FilePath) : Option FilePath :=
  if p.marks.isEmpty then none
  else some (p.ancestors.dropLast.getLast?.getD ⟨p.absolute, []⟩)

/-- The last component, if it is a proper name. -/
def fileName? (p : FilePath) : Option String := p.components.getLast?.filter (!isDots ·)

/-- The path beside this one with another name. -/
def withName (p : FilePath) (name : String) : FilePath :=
  ⟨p.absolute, (p.parent?.map (·.pieces)).getD [] ++ [name]⟩

/-- A path below a directory; an absolute path stands for itself. -/
def join (dir file : String) : String :=
  if file.toList.head? == some '/' then file
  else if dir.isEmpty || dir.toList.getLast? == some '/' then dir ++ file
  else dir ++ "/" ++ file

example : (ofString "./a//b/./c/").components = [".", "a", "b", "c"] := by decide +kernel
example : (ofString "./a//b/./c/").parent?.map text = some "./a//b" := by decide +kernel
example : (ofString "a//b/").text = "a//b/" := by decide +kernel

end FilePath

end ContractBench
