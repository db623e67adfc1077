import LedgerExport.Files.FileSystem

/-! # Trees of files

Directories and plain files under the names on the way to them from the root. A path starts at the
root if it starts with a slash, and in the home directory otherwise. A step is only taken out of a
directory, so that a path may lead to a place where nothing is yet, but not beyond it.
-/
namespace LedgerExport.Files

inductive Node where
  | directory
  | file (bytes : Bytes)
  deriving Repr, DecidableEq

/-- The names on the way from the root. -/
abbrev Place := List Text

structure Tree where
  nodes : List (Place × Node) := []
  home : Place := []
  deriving Repr, DecidableEq

/-- The greatest length of a name, in bytes. -/
def nameLimit : Nat := 255

/-- The greatest length of a path, in bytes. -/
def pathLimit : Nat := 4095

def parentStep : Text := "..".toList

def isIdle (step : Text) : Bool := step.isEmpty || step == ['.']

namespace Tree

def find? (t : Tree) (p : Place) : Option Node :=
  if p.isEmpty then some .directory else (t.nodes.find? fun e => e.1 == p).map Prod.snd

def step (t : Tree) (p : Place) (name : Text) : Except FileFault Place :=
  match t.find? p with
  | none => .error .missing
  | some (.file _) => .error .notDirectory
  | some .directory =>
    if isIdle name then .ok p
    else if name = parentStep then .ok p.dropLast
    else if nameLimit < (Text.encodeUtf8 name).length then .error .nameTooLong
    else .ok (p ++ [name])

def start (t : Tree) (path : Text) : Place := if path.head? = some '/' then [] else t.home

def walk (t : Tree) (path : Text) (steps : List Text) : Except FileFault Place :=
  steps.foldlM t.step (t.start path)

def checkPath (path : Text) : Except FileFault Unit :=
  if path.elem '\x00' then .error .nullInPath
  else if path.isEmpty then .error .missing
  else if pathLimit < (Text.encodeUtf8 path).length then .error .nameTooLong
  else .ok ()

def locate (t : Tree) (path : Text) : Except FileFault Node := do
  checkPath path
  match t.find? (← t.walk path (Text.splitOn ['/'] path)) with
  | some node => return node
  | none => throw .missing

def isFile (t : Tree) (path : Text) : Bool :=
  match t.locate path with
  | .ok (.file _) => true
  | _ => false

def read (t : Tree) (path : Text) : Except FileFault Bytes := do
  match ← t.locate path with
  | .file bytes => return bytes
  | .directory => throw .isDirectory

/-- The place of a file that is written under a path. No file goes where a directory is, nor under
a path with a slash at its end. -/
def target (t : Tree) (path : Text) : Except FileFault Place := do
  checkPath path
  let steps := Text.splitOn ['/'] path
  let names := (steps.reverse.dropWhile List.isEmpty).reverse
  let dir ← t.walk path names.dropLast
  let p ← t.step dir (names.getLast?.getD [])
  if names.length < steps.length || t.find? p = some .directory then throw .isDirectory
  return p

def put (t : Tree) (p : Place) (bytes : Bytes) : Tree :=
  { t with nodes := (p, .file bytes) :: t.nodes.filter fun e => e.1 != p }

def writeFile (t : Tree) (path : Text) (bytes : Bytes) : Except FileFault Unit × Tree :=
  match t.target path with
  | .ok p => (.ok (), t.put p bytes)
  | .error fault => (.error fault, t)

instance : FileSystem Tree where
  reader t := ⟨t.isFile, t.read⟩
  write := writeFile

/-- A home directory with nothing but these files in it. -/
def ofFiles (home : Place) (files : List (Text × Bytes)) : Tree where
  nodes := (List.range home.length).map (fun n => (home.take (n + 1), .directory)) ++
    files.map fun e => (home ++ [e.1], .file e.2)
  home

end Tree

end LedgerExport.Files
