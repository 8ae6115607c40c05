import FlexSynth.Files.Path
import FlexSynth.Text.Utf8

/-!
# Files

The files that a run can see: a tree in which each file has its octets and the time
of its last change, and the working directory that relative paths start from. Each
write gets a time later than all before it.

Reading and writing fail with the reasons that an operating system gives, and
name the path that was asked for. A path that holds a NUL never gets to the
operating system, for there a NUL ends a name.

Nothing keeps a run from a file that is there: there are no permissions, no links and
so no loops of them, no full disks, and no failures of a device.
-/

namespace FlexSynth

/-! ## Failures -/

inductive FileFault where
  | notFound
  | notDirectory
  | isDirectory
  | nameTooLong
  | holdsNul
  deriving DecidableEq, Repr

structure FileError where
  fault : FileFault
  path : Path
  deriving DecidableEq, Repr

/-- The number that the operating system gives to a failure. -/
def FileFault.number? : FileFault → Option Nat
  | .notFound => some 2
  | .notDirectory => some 20
  | .isDirectory => some 21
  | .nameTooLong => some 36
  | .holdsNul => none

/-- Whether the operating system gives the failure. -/
def FileFault.isOfSystem (fault : FileFault) : Bool :=
  fault.number?.isSome

def FileFault.message : FileFault → String
  | .notFound => "No such file or directory"
  | .notDirectory => "Not a directory"
  | .isDirectory => "Is a directory"
  | .nameTooLong => "File name too long"
  | .holdsNul => "embedded null byte"

def FileError.message (e : FileError) : String :=
  match e.fault.number? with
  | some number => s!"[Errno {number}] {e.fault.message}: {Text.display e.path.text}"
  | none => e.fault.message

/-! ## The tree -/

/-- The parts of the name of a file or directory, from the root on. -/
abbrev Location := List String

/-- A file or a directory, with the time of its last change. -/
inductive FileNode where
  | directory (modified : Nat)
  | file (octets : List UInt8) (modified : Nat)
  deriving DecidableEq, Repr

/-- The time of the last change of a file or directory. -/
def FileNode.modified : FileNode → Nat
  | .directory modified => modified
  | .file _ modified => modified

/-- The files and directories, the working directory, and the latest time that was
given to a change. -/
structure FileTree where
  nodes : List (Location × FileNode) := []
  current : Location := ["work"]
  clock : Nat := 1
  deriving DecidableEq, Repr

namespace FileTree

/-- What stands at a location; the working directory and those above it always do. -/
def node? (t : FileTree) (location : Location) : Option FileNode :=
  if location.isPrefixOf t.current then some (.directory 1) else t.nodes.lookup location

/-- Puts a node at a location, in the place of another one or at the end. -/
def putNode (location : Location) (node : FileNode) :
    List (Location × FileNode) → List (Location × FileNode)
  | [] => [(location, node)]
  | (l, n) :: rest =>
    if l = location then (l, node) :: rest else (l, n) :: putNode location node rest

/-- The most octets of the name of a file or directory. -/
def maxNameSize : Nat := 255

/-- The most octets of a path. -/
def maxPathSize : Nat := 4095

/-- Follows the parts of a path from a location. Every location on the way must be
a directory; what the path leads to need not exist. -/
def follow (t : FileTree) : Location → List String → Except FileFault Location
  | here, [] => .ok here
  | here, part :: rest =>
    match t.node? here with
    | none => .error .notFound
    | some (.file ..) => .error .notDirectory
    | some (.directory _) =>
      if maxNameSize < part.utf8ByteSize then .error .nameTooLong
      else if part = ".." then follow t here.dropLast rest else follow t (here ++ [part]) rest

def startOf (t : FileTree) (p : Path) : Location :=
  if p.root.isEmpty then t.current else []

/-- The location that a path leads to. -/
def locate (t : FileTree) (p : Path) : Except FileFault Location :=
  if '\x00' ∈ p.text.toList then .error .holdsNul
  else if maxPathSize < p.text.utf8ByteSize then .error .nameTooLong
  else t.follow (t.startOf p) p.parts

/-- What a path leads to. -/
def find (t : FileTree) (p : Path) : Except FileFault FileNode := do
  let location ← t.locate p
  match t.node? location with
  | some node => return node
  | none => .error .notFound

/-- The time of the last change of what a path leads to. -/
def modified (t : FileTree) (p : Path) : Except FileFault Nat :=
  (t.find p).map FileNode.modified

def read (t : FileTree) (p : Path) : Except FileError (List UInt8) :=
  match t.find p with
  | .ok (.file octets _) => .ok octets
  | .ok (.directory _) => .error ⟨.isDirectory, p⟩
  | .error fault => .error ⟨fault, p⟩

/-- Writes a text to a file, which is made when it does not exist. -/
def write (t : FileTree) (p : Path) (text : String) : Except FileError FileTree :=
  match t.locate p with
  | .error fault => .error ⟨fault, p⟩
  | .ok location =>
    match t.node? location with
    | some (.directory _) => .error ⟨.isDirectory, p⟩
    | _ =>
      let node := FileNode.file (Text.encode text) (t.clock + 1)
      .ok { t with nodes := putNode location node t.nodes, clock := t.clock + 1 }

/-- The files that are new or have other octets than before. -/
def changedSince (t before : FileTree) : List (Location × List UInt8) :=
  t.nodes.filterMap fun (location, node) =>
    match node, before.nodes.lookup location with
    | .directory _, _ => none
    | .file octets _, some (.file old _) => if octets = old then none else some (location, octets)
    | .file octets _, _ => some (location, octets)

/-- A location below the working directory, as seen from there. -/
def relative? (t : FileTree) (location : Location) : Option Location :=
  if t.current.isPrefixOf location then some (location.drop t.current.length) else none

end FileTree

end FlexSynth
