import Mathlib.Data.List.Sort
import SolidPod.Foundation.FileTree
import SolidPod.Foundation.Splitter
import SolidPod.Ldp.Links
import SolidPod.Storage.Basic

/-!
# The filesystem backend

A resource is the file at its path below the root, and a sidecar file next to
it, whose name is that of the file with `.meta.json` added, holds the content
type. The text form of the sidecar is the JSON library's, so it is a parameter,
as the hash that makes an ETag is. A call is a sequence of file system steps;
`put` writes two files, and `get` reads two.
-/

namespace SolidPod

open Foundation Str

/-- The JSON text of a sidecar with a content type, and the content type in a
text that is one. What was written is read back. -/
structure SidecarCodec where
  toVec : Str → Bytes
  fromSlice : Bytes → Option Str
  fromSlice_toVec : ∀ contentType, fromSlice (toVec contentType) = some contentType

/-- A sidecar as the library writes it for a content type that needs no
escapes. -/
def plainSidecar : SidecarCodec where
  toVec contentType := utf8 ("\x7b\"content_type\":\"" ++ contentType ++ "\",\"links\":[]\x7d")
  fromSlice bytes :=
    (fromUtf8 bytes).bind fun t =>
      (stripPrefix "\x7b\"content_type\":\"" t).bind (stripSuffix "\",\"links\":[]\x7d")
  fromSlice_toVec contentType := by
    rw [fromUtf8_utf8, Option.bind_some, List.append_assoc, stripPrefix_append, Option.bind_some,
      stripSuffix_append]

def metaSuffix : Str := ".meta.json"

/-- What `std::io::Error` displays. -/
def ioMessage : FileError → Str
  | .notFound => "No such file or directory (os error 2)"
  | .notADirectory => "Not a directory (os error 20)"
  | .isADirectory => "Is a directory (os error 21)"
  | .alreadyExists => "File exists (os error 17)"

/-- The names on the way from the root, and whether the path can only be that of
a directory, since it ends in a slash. -/
structure DiskPath where
  names : List Str
  dirOnly : Bool
  deriving DecidableEq

namespace DiskPath

def slashes : Splitter Unit := ⟨fun _ _ => (), fun _ c => c == '/'⟩

/-- How the system reads the text of a path: empty names and `.` lead nowhere. -/
def parse (rel : Str) : DiskPath :=
  let pieces := slashes.pieces () [] rel
  let void : Str → Bool := fun s => s == [] || s == "."
  ⟨pieces.filter fun s => !void s, (pieces.getLast?.map void).getD true⟩

end DiskPath

structure FsBackend (digest : Bytes → Str) (codec : SidecarCodec) where
  tree : FileTree Str Bytes

namespace FsBackend

variable {digest : Bytes → Str} {codec : SidecarCodec}

def empty : FsBackend digest codec := ⟨.empty⟩

def normalize (path : Str) : Except PodError Str :=
  let p : Str := if path.isEmpty then "/" else if startsWith "/" path then path else '/' :: path
  if containsStr ".." p || p.contains '\x00' then .error (.invalidPath p) else .ok p

/-- The text of the path below the root. It has no leading slash and no `..`,
so it stays below the root. -/
def resolve (path : Str) : Except PodError Str := (normalize path).map (trimStartMatches '/')

def metaPath (rel : Str) : Str := rel ++ metaSuffix

section Steps

variable (t : FileTree Str Bytes) (d : DiskPath)

/-- A file is not found under a path that can only be that of a directory. -/
def statAt : Except FileError (FileNode Bytes) :=
  match t.stat d.names with
  | .ok (.file b) => if d.dirOnly then .error .notADirectory else .ok (.file b)
  | r => r

def readAt : Except FileError Bytes :=
  match t.readFile d.names with
  | .ok b => if d.dirOnly then .error .notADirectory else .ok b
  | r => r

def writeAt (b : Bytes) : Except FileError (FileTree Str Bytes) :=
  if d.dirOnly then .error (if t.isFile d.names then .notADirectory else .isADirectory)
  else t.writeFile d.names b

def removeAt : Except FileError (FileTree Str Bytes) :=
  if d.dirOnly && t.isFile d.names then .error .notADirectory else t.removeFile d.names

end Steps

/-- A failed read, as the caller of `get` or `head` sees it. -/
def readError (path : Str) : FileError → PodError
  | .notFound => .notFound path
  | e => .io (ioMessage e)

/-- The first step of `get`: the file of the resource. -/
def readBody (s : FsBackend digest codec) (path : Str) : Except PodError Bytes :=
  match resolve path with
  | .error e => .error e
  | .ok rel => (readAt s.tree (.parse rel)).mapError (readError path)

/-- The content type in the sidecar, or one that the name suggests. -/
def sidecarType (s : FsBackend digest codec) (path rel : Str) : Str :=
  let fallback := (Ldp.inferDotfileContentType path).getD "application/octet-stream"
  match readAt s.tree (.parse (metaPath rel)) with
  | .ok bytes => (codec.fromSlice bytes).getD fallback
  | .error _ => fallback

/-- The second step of `get`: the sidecar. -/
def readMeta (s : FsBackend digest codec) (path : Str) (body : Bytes) :
    Except PodError ResourceMeta :=
  (resolve path).map fun rel => ⟨digest body, body.length, s.sidecarType path rel⟩

def get (s : FsBackend digest codec) (path : Str) : Except PodError (Bytes × ResourceMeta) :=
  match s.readBody path with
  | .error e => .error e
  | .ok body => (s.readMeta path body).map fun m => (body, m)

/-- The first step of `put`: the file of the resource, in directories that are
made where they are missing. -/
def writeBody (s : FsBackend digest codec) (path : Str) (body : Bytes) :
    Except PodError Unit × FsBackend digest codec :=
  match resolve path with
  | .error e => (.error e, s)
  | .ok rel =>
    match s.tree.createDirAll (DiskPath.parse rel).names.dropLast with
    | .error e => (.error (.io (ioMessage e)), s)
    | .ok t =>
      match writeAt t (.parse rel) body with
      | .error e => (.error (.io (ioMessage e)), ⟨t⟩)
      | .ok t' => (.ok (), ⟨t'⟩)

/-- The second step of `put`: the sidecar. -/
def writeSidecar (s : FsBackend digest codec) (path contentType : Str) :
    Except PodError Unit × FsBackend digest codec :=
  match resolve path with
  | .error e => (.error e, s)
  | .ok rel =>
    match writeAt s.tree (.parse (metaPath rel)) (codec.toVec contentType) with
    | .error e => (.error (.io (ioMessage e)), s)
    | .ok t => (.ok (), ⟨t⟩)

def put (s : FsBackend digest codec) (path : Str) (body : Bytes) (contentType : Str) :
    Except PodError ResourceMeta × FsBackend digest codec :=
  match s.writeBody path body with
  | (.error e, s') => (.error e, s')
  | (.ok _, s') =>
    match s'.writeSidecar path contentType with
    | (.error e, s'') => (.error e, s'')
    | (.ok _, s'') => (.ok ⟨digest body, body.length, contentType⟩, s'')

def delete (s : FsBackend digest codec) (path : Str) :
    Except PodError Unit × FsBackend digest codec :=
  match resolve path with
  | .error e => (.error e, s)
  | .ok rel =>
    match removeAt s.tree (.parse rel) with
    | .error e => (.error (readError path e), s)
    | .ok t =>
      -- the sidecar goes too; that it cannot be removed is ignored
      match removeAt t (.parse (metaPath rel)) with
      | .error _ => (.ok (), ⟨t⟩)
      | .ok t' => (.ok (), ⟨t'⟩)

/-- A node as a listing names it. -/
def entryName : Str × FileNode Bytes → Str
  | (name, .dir) => name ++ ['/']
  | (name, .file _) => name

def list (s : FsBackend digest codec) (container : Str) : Except PodError (List Str) :=
  match resolve container with
  | .error e => .error e
  | .ok rel =>
    match s.tree.readDir (DiskPath.parse rel).names with
    | .error .notFound => .ok []
    | .error e => .error (.io (ioMessage e))
    | .ok entries =>
      .ok (((entries.filter fun e => !endsWith metaSuffix e.1).map entryName).insertionSort
        (· ≤ ·))

def head (s : FsBackend digest codec) (path : Str) : Except PodError ResourceMeta :=
  match resolve path with
  | .error e => .error e
  | .ok rel =>
    match statAt s.tree (.parse rel) with
    | .error e => .error (readError path e)
    | .ok _ =>
      match readAt s.tree (.parse rel) with
      | .error e => .error (.io (ioMessage e))
      | .ok body => s.readMeta path body

def «exists» (s : FsBackend digest codec) (path : Str) : Except PodError Bool :=
  (resolve path).map fun rel => (statAt s.tree (.parse rel)).isOk

instance : Storage (FsBackend digest codec) where
  get := get
  put := put
  delete := delete
  list := list

instance : InspectableStorage (FsBackend digest codec) where
  head := head
  «exists» := «exists»

end FsBackend

end SolidPod
