import TraversalPlan.Command.Files

/-!
# Files in memory

A tree of files below a root, with a working directory where paths begin that do not begin at the root.

* `FilePath`: a path taken apart at its slashes.
* `FileTree.enter`: one name of a path, followed from a place.
* `FileTree.lookUp`: what a path leads to.
* `FileTree.destination`: the place that is written when a path is written, which may be a new one.
* `find?_put`: what is put at a place is found there, and nothing else changes.
-/

namespace TraversalPlan

/-! ## Paths -/

/-- A path taken apart at its slashes. -/
structure FilePath where
  /-- The path begins at the root. -/
  absolute : Bool
  names : List String
  /-- The path ends in a slash, so that it asks for a directory. -/
  directory : Bool
deriving DecidableEq, Repr

namespace FilePath

/-- The bytes that a name may have. -/
def nameLimit : Nat := 255

/-- The bytes that a path may have. -/
def pathLimit : Nat := 4095

def ofString (s : String) : FilePath where
  absolute := s.toList.head? = some '/'
  names := ((s.toList.splitOn '/').map String.ofList).filter (· ≠ "")
  directory := s.toList.getLast? = some '/'

/-- A path that is not empty and not too long. -/
def parse (s : String) : Except FileFailure FilePath :=
  if s = "" then .error .notFound
  else if pathLimit < s.utf8ByteSize then .error .nameTooLong
  else .ok (ofString s)

end FilePath

/-! ## Trees -/

/-- The content of a file. -/
inductive Content where
  | text (s : String)
  | bytes (bs : List UInt8)
deriving DecidableEq, Repr

/-- The bytes of the content. -/
def Content.toBytes : Content → List UInt8
  | text s => s.toUTF8.data.toList
  | bytes bs => bs

/-- The text of the content. -/
def Content.toText : Content → Except FileFailure String
  | text s => .ok s
  | bytes bs =>
    match String.fromUTF8? ⟨bs.toArray⟩ with
    | some s => .ok s
    | none => .error (.other "stream did not contain valid UTF-8")

/-- What stands at a place. -/
inductive Entry where
  | directory
  | file (content : Content)
  /-- A device that is always empty. -/
  | null
  /-- A device that never has room. -/
  | full
deriving DecidableEq, Repr

/-- A place in a tree: the names from there up to the root. -/
abbrev Place := List String

/-- A tree of files, with the newest first, and its working directory. -/
structure FileTree where
  home : Place
  entries : List (Place × Entry)

namespace FileTree

def find? (t : FileTree) (p : Place) : Option Entry :=
  (t.entries.find? fun e => e.1 = p).map Prod.snd

def put (t : FileTree) (p : Place) (e : Entry) : FileTree := { t with entries := (p, e) :: t.entries }

/-- **What is put at a place is found there, and nothing else changes.** -/
theorem find?_put (t : FileTree) (p q : Place) (e : Entry) :
    (t.put p e).find? q = if p = q then some e else t.find? q := by
  by_cases h : p = q <;> simp [find?, put, h]

/-- The directories below the root of a system. -/
def systemDirectories : List String :=
  ["bin", "boot", "dev", "etc", "home", "lib", "lib64", "media", "mnt", "opt", "proc", "root", "run",
    "sbin", "srv", "sys", "tmp", "usr", "var"]

/-- A system whose working directory is a temporary one that holds the files. -/
def ofFiles (files : List (String × Content)) : FileTree where
  home := ["work", "tmp"]
  entries :=
    files.map (fun (name, c) => ([name, "work", "tmp"], .file c)) ++
      [([], .directory), (["work", "tmp"], .directory), (["null", "dev"], .null),
        (["stdin", "dev"], .null), (["full", "dev"], .full)] ++
      systemDirectories.map fun name => ([name], .directory)

/-! ## Following paths -/

/-- One name of a path, followed from a directory. The root is above itself. -/
def enter (t : FileTree) (p : Place) (name : String) : Except FileFailure Place :=
  match t.find? p with
  | none => .error .notFound
  | some .directory =>
    if name = "." then .ok p
    else if name = ".." then .ok p.tail
    else if FilePath.nameLimit < name.utf8ByteSize then .error .nameTooLong
    else .ok (name :: p)
  | some _ => .error .notDirectory

/-- The names of a path, followed one after the other. -/
def follow (t : FileTree) (path : FilePath) (names : List String) : Except FileFailure Place :=
  names.foldlM t.enter (if path.absolute then [] else t.home)

/-- What a path leads to. -/
def lookUp (t : FileTree) (path : String) : Except FileFailure Entry := do
  let path ← FilePath.parse path
  let p ← t.follow path (path.names ++ if path.directory then ["."] else [])
  match t.find? p with
  | some e => return e
  | none => .error .notFound

/-- The content of the file that a path leads to. -/
def content? (t : FileTree) (path : String) : Option Content :=
  match t.lookUp path with
  | .ok (.file c) => some c
  | _ => none

def read (t : FileTree) (path : String) : Except FileFailure String := do
  match ← t.lookUp path with
  | .directory => .error .isDirectory
  | .file c => c.toText
  | .null => return ""
  | .full => .error (.other "out of memory")

/-- The place that is written when a path is written. All but the last name must lead to a directory,
and the last one must not ask for one. -/
def destination (t : FileTree) (path : String) : Except FileFailure Place := do
  let path ← FilePath.parse path
  match path.names.getLast? with
  | none => .error .isDirectory
  | some name =>
    let parent ← t.follow path (path.names.dropLast ++ ["."])
    if path.directory || name = "." || name = ".." then .error .isDirectory
    else t.enter parent name

def write (t : FileTree) (path : String) (bytes : List UInt8) : Except FileFailure FileTree := do
  let p ← t.destination path
  match t.find? p with
  | some .directory => .error .isDirectory
  | some .null => return t
  | some .full => .error .noSpace
  | _ => return t.put p (.file (.bytes bytes))

/-- The files of a tree that changes as files are written. -/
def asFiles : Files (StateM FileTree) where
  read path := fun t => (t.read path, t)
  write path bytes := fun t =>
    match t.write path bytes with
    | .ok t => (.ok (), t)
    | .error e => (.error e, t)

end FileTree
end TraversalPlan
