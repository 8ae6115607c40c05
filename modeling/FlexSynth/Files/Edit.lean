import FlexSynth.Files.Tree

/-!
# Edits from outside

While a program watches a file, others work on the tree: they delete files and
write new ones, with the directories that these need. What is written gets a new
time, unless its writer keeps the time that was given last. A directory changes
when an entry of it comes or goes, so it gets a new time then.
-/

namespace FlexSynth

/-- What others put at a path: a file, or a directory. -/
inductive Content where
  | file (octets : List UInt8)
  | directory
  deriving DecidableEq, Repr

def Content.node (time : Nat) : Content → FileNode
  | .file octets => .file octets time
  | .directory => .directory time

/-- A change of the tree by others. -/
structure Edit where
  delete : List Path
  write : List (Path × Content)
  keepTime : Bool
  deriving DecidableEq, Repr

namespace FileTree

/-! ## Directories and their entries -/

/-- The location of a path without looking at the tree. -/
def plainLocation (t : FileTree) (p : Path) : Location :=
  t.startOf p ++ p.parts

/-- The tree with the next time. -/
def tick (t : FileTree) : FileTree :=
  { t with clock := t.clock + 1 }

def touch (t : FileTree) (location : Location) : FileTree :=
  match t.nodes.lookup location with
  | some (.directory _) =>
    { t.tick with nodes := putNode location (.directory t.tick.clock) t.nodes }
  | _ => t

/-- The tree with a node at a location, in the place of another one or as a new
entry of its directory. -/
def enter (t : FileTree) (location : Location) (node : FileNode) : FileTree :=
  let entered := { t with nodes := putNode location node t.nodes }
  if (t.node? location).isSome then entered else entered.touch location.dropLast

/-- The tree with a directory, unless something stands there. -/
def addDirectory (t : FileTree) (location : Location) : FileTree :=
  if (t.node? location).isSome then t
  else t.tick.enter location (.directory t.tick.clock)

/-- A location and all locations above it, from the outermost. -/
def ancestors (location : Location) : List Location :=
  (List.range location.length).map fun n => location.take (n + 1)

/-- The tree with a directory and all directories above it. -/
def makeDirectory (t : FileTree) (p : Path) : FileTree :=
  (ancestors (t.plainLocation p)).foldl addDirectory t

/-! ## Deleting and writing -/

/-- The tree without what stands at a path, and all below it. -/
def delete (t : FileTree) (p : Path) : FileTree :=
  let location := t.plainLocation p
  touch { t with nodes := t.nodes.filter (!location.isPrefixOf ·.1) } location.dropLast

/-- The tree with a content of a given time, and the directories above it. -/
def place (t : FileTree) (p : Path) (content : Content) (time : Nat) : FileTree :=
  (t.makeDirectory p.parent).enter (t.plainLocation p) (content.node time)

end FileTree

/-- A tree that others work on too, and the time that they gave last. -/
structure SharedTree where
  tree : FileTree := {}
  given : Nat := 1
  deriving DecidableEq, Repr

namespace SharedTree

/-- Others write a file or make a directory. -/
def place (s : SharedTree) (keepTime : Bool) (p : Path) (content : Content) : SharedTree :=
  if keepTime then { s with tree := s.tree.place p content s.given }
  else
    let tree := s.tree.tick
    { tree := tree.place p content tree.clock, given := tree.clock }

def edit (s : SharedTree) (e : Edit) : SharedTree :=
  let s := { s with tree := e.delete.foldl FileTree.delete s.tree }
  e.write.foldl (fun s (p, content) => s.place e.keepTime p content) s

end SharedTree

end FlexSynth
