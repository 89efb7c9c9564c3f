/-
# Groups of shapes

Blocks in braces group the shapes that are declared in them.  A *folder* has a name and holds codes
of shapes and further folders.  A block that only keeps shapes together has no name; shapes belong
to the innermost folder and to the innermost such block around them, whichever of the two is
inside the other.  `Nesting` keeps the folders and groups while a text is read.
-/

namespace UmlDraw

/-- A named group with the path from the outermost folder, the codes of the shapes in it and the
folders in it. -/
inductive Folder (α : Type) where
  | node (head : α) (path : String) (members : List String) (inner : List (Folder α))

namespace Folder

variable {α : Type}

/-- What is known of a folder but its place and contents. -/
def head : Folder α → α
  | node h _ _ _ => h

/-- The names from the outermost folder on, with points between them. -/
def path : Folder α → String
  | node _ p _ _ => p

/-- The codes of the shapes in a folder. -/
def members : Folder α → List String
  | node _ _ ms _ => ms

/-- The folders in a folder. -/
def inner : Folder α → List (Folder α)
  | node _ _ _ fs => fs

mutual

/-- The folder and all folders inside. -/
def walk : Folder α → List (Folder α)
  | node h p ms inner => node h p ms inner :: walkAll inner

/-- The folders of a list and all folders inside. -/
def walkAll : List (Folder α) → List (Folder α)
  | [] => []
  | f :: rest => walk f ++ walkAll rest

end

/-- The codes of all shapes in folders. -/
def allMembers (folders : List (Folder α)) : List String :=
  (walkAll folders).flatMap members

end Folder

/-- An open block. -/
inductive OpenGroup (α : Type) where
  /-- An open folder. -/
  | folder (head : α) (path : String) (members : List String) (inner : List (Folder α))
  /-- An open block without a name. -/
  | together (codes : List String)

/-- The folders and groups so far. -/
structure Nesting (α : Type) where
  /-- The closed folders at the top. -/
  folders : List (Folder α) := []
  /-- The closed groups without a name. -/
  groups : List (List String) := []
  /-- The open blocks, innermost first. -/
  blocks : List (OpenGroup α) := []

namespace Nesting

variable {α : Type}

/-- The path of the innermost open folder. -/
def innermost? : List (OpenGroup α) → Option String
  | [] => none
  | .folder _ path _ _ :: _ => some path
  | .together _ :: rest => innermost? rest

/-- The path of the innermost open folder. -/
def path? (n : Nesting α) : Option String :=
  innermost? n.blocks

/-- Opens a folder. -/
def openFolder (n : Nesting α) (head : α) (name : String) : Nesting α :=
  let path :=
    match n.path? with
    | some outer => outer ++ "." ++ name
    | none => name
  { n with blocks := .folder head path [] [] :: n.blocks }

/-- Opens a block without a name. -/
def openTogether (n : Nesting α) : Nesting α :=
  { n with blocks := .together [] :: n.blocks }

/-- Puts a closed folder into the innermost open one; `none` if no folder is open. -/
def attach? (f : Folder α) : List (OpenGroup α) → Option (List (OpenGroup α))
  | [] => none
  | .folder h p ms inner :: rest => some (.folder h p ms (inner ++ [f]) :: rest)
  | .together codes :: rest => (attach? f rest).map fun rest => .together codes :: rest

/-- Puts a closed folder into the innermost open one, or at the top. -/
def attach (n : Nesting α) (f : Folder α) : Nesting α :=
  match attach? f n.blocks with
  | some blocks => { n with blocks := blocks }
  | none => { n with folders := n.folders ++ [f] }

/-- Closes the innermost block; an empty group is dropped, and without an open block nothing
happens. -/
def close (n : Nesting α) : Nesting α :=
  match n.blocks with
  | [] => n
  | .folder h p ms inner :: rest => attach { n with blocks := rest } (.node h p ms inner)
  | .together codes :: rest =>
    { n with groups := if codes.isEmpty then n.groups else n.groups ++ [codes], blocks := rest }

/-- Changes the codes of the innermost open folder. -/
def changeMembers (f : List String → List String) : List (OpenGroup α) → List (OpenGroup α)
  | [] => []
  | .folder h p ms inner :: rest => .folder h p (f ms) inner :: rest
  | .together codes :: rest => .together codes :: changeMembers f rest

/-- Changes the codes of the innermost open block without a name. -/
def changeTogether (f : List String → List String) : List (OpenGroup α) → List (OpenGroup α)
  | [] => []
  | .folder h p ms inner :: rest => .folder h p ms inner :: changeTogether f rest
  | .together codes :: rest => .together (f codes) :: rest

/-- Appends a code unless it is there. -/
def addOnce (code : String) (codes : List String) : List String :=
  if codes.contains code then codes else codes ++ [code]

/-- Puts a code into the innermost open folder. -/
def enterFolder (n : Nesting α) (code : String) : Nesting α :=
  { n with blocks := changeMembers (addOnce code) n.blocks }

/-- Changes the codes of the innermost open block without a name. -/
def enterTogether (n : Nesting α) (f : List String → List String) : Nesting α :=
  { n with blocks := changeTogether f n.blocks }

/-- The heads of all folders of open blocks, and of the folders inside. -/
def openHeads : List (OpenGroup α) → List α
  | [] => []
  | .folder h _ _ inner :: rest => h :: (Folder.walkAll inner).map Folder.head ++ openHeads rest
  | .together _ :: rest => openHeads rest

/-- The heads of all folders so far. -/
def heads (n : Nesting α) : List α :=
  (Folder.walkAll n.folders).map Folder.head ++ openHeads n.blocks

/-- Closes open blocks around closed folders; open blocks without a name are dropped. -/
def unwind : List (OpenGroup α) → List (Folder α) → List (Folder α)
  | [], inside => inside
  | .folder h p ms inner :: rest, inside => unwind rest [.node h p ms (inner ++ inside)]
  | .together _ :: rest, inside => unwind rest inside

/-- The folders at the top when the text ends. -/
def allFolders (n : Nesting α) : List (Folder α) :=
  n.folders ++ unwind n.blocks []

end Nesting

/-- The group of each code that has one; of several groups the last counts. -/
def groupOf (groups : List (List String)) (code : String) : List String :=
  (groups.reverse.find? fun g => g.contains code).getD [code]

/-- The codes with the members of each group next to each other, at the place of the first of
them. -/
def gather (groups : List (List String)) (codes : List String) : List String :=
  codes.foldl (fun result code =>
    if result.contains code then result
    else
      (groupOf groups code).foldl (fun result member =>
        if codes.contains member && !result.contains member then result ++ [member] else result)
        result) []

end UmlDraw
