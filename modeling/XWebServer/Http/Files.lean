import XWebServer.Basic

/-! # The file system calls of a response

`stat`, `open` and `mmap` as the response code sees them. A file system maps names to nodes; a name
handed to it ends at its first NUL. `mmap` fails exactly on length 0 and on what is no regular file.
-/

namespace XWebServer

/-- What `S_ISDIR` and `mmap` tell apart. -/
inductive FileKind where
  | regular
  | directory
  | other
deriving DecidableEq, Repr

/-- What a name resolves to. `openable` is whether the server's credentials let it open the node. -/
structure Node where
  kind : FileKind
  content : Bytes
  othersRead : Bool
  openable : Bool
deriving DecidableEq, Repr

/-- The fields of `struct stat` the server reads. -/
structure FileStat where
  isDirectory : Bool
  othersRead : Bool
  size : ℕ
deriving DecidableEq, Repr

/-- `{ 0 }`. -/
def FileStat.zero : FileStat := ⟨false, false, 0⟩

def Node.stat (node : Node) : FileStat :=
  ⟨node.kind = .directory, node.othersRead, node.content.length⟩

/-- A private read-only mapping of the first `len` bytes. -/
def Node.mmap (node : Node) (len : ℕ) : Option Bytes :=
  if len = 0 ∨ node.kind ≠ .regular then none else some (node.content.take len)

abbrev FileSystem := Bytes → Option Node

/-- The name a C string of these bytes stands for. -/
def cString (bytes : Bytes) : Bytes := bytes.takeWhile (· != 0)

namespace FileSystem

def stat (files : FileSystem) (name : Bytes) : Option FileStat := (files name).map (·.stat)

/-- `open` for reading. -/
def openFile (files : FileSystem) (name : Bytes) : Option Node := (files name).filter (·.openable)

end FileSystem

/-- What the process has: the working directory it was started in, and its files. -/
structure Host where
  cwd : Bytes
  cwd_name : 0 ∉ cwd
  files : FileSystem

/-- A host started in `/srv` that has no files at all. -/
def bareHost : Host := ⟨ascii "/srv", by decide, fun _ => none⟩

/-- `HttpConn::srcDir`. -/
def Host.srcDir (host : Host) : Bytes := host.cwd ++ ascii "/resources/"

/-- The name of a request path, as `stat` and `open` get it. -/
def Host.fileName (host : Host) (path : Bytes) : Bytes := cString (host.srcDir ++ path)

/-- The path names something that opens but cannot be mapped: it is empty, or no regular file. -/
def Host.Unmappable (host : Host) (path : Bytes) : Prop :=
  ∃ node, host.files.openFile (host.fileName path) = some node ∧
    (node.content = [] ∨ node.kind ≠ .regular)

instance (host : Host) (path : Bytes) : Decidable (host.Unmappable path) :=
  match opened : host.files.openFile (host.fileName path) with
  | none => isFalse fun ⟨_, found, _⟩ => by rw [opened] at found; cases found
  | some node =>
      decidable_of_iff (node.content = [] ∨ node.kind ≠ .regular)
        ⟨fun fails => ⟨node, opened, fails⟩, fun ⟨_, found, fails⟩ => by
          rw [opened] at found
          cases found
          exact fails⟩

/-- The path names something that opens and does not begin with the four bytes that `AddContent` takes
for a failed mapping. -/
def Host.Opens (host : Host) (path : Bytes) : Prop :=
  ∃ node, host.files.openFile (host.fileName path) = some node ∧
    node.content.take 4 ≠ [255, 255, 255, 255]

theorem Host.srcDir_ne_nil (host : Host) : host.srcDir ≠ [] := by simp [srcDir, ascii]

end XWebServer
