import BlockFS.Volume.Namespace
import BlockFS.Volume.Attributes
import BlockFS.Volume.Data
import BlockFS.Volume.Format

/-!
The operations of a file system in use, one function each, and the same operations as data: a
`Request` is a call with its arguments, and `perform` carries it out. The time stamped on new and
changed files is an argument. An operation that fails keeps the state as its effects left it.
-/

set_option autoImplicit false
set_option relaxedAutoImplicit false

namespace BlockFS

namespace FileSystem

def lookup (path : String) : EStateM Failure FileSystem UInt32 :=
  ask fun v => v.lookup path

def attributes (path : String) : EStateM Failure FileSystem Attributes :=
  ask fun v => v.attributes path

/-- The entries of the directory at a path in slot order, their names as text. -/
def list (path : String) : EStateM Failure FileSystem (List (String × Attributes)) := do
  let entries ← ask fun v => v.list path
  return entries.map fun (name, attributes) => (String.ofList (Utf8.decode name), attributes)

/-- Creates a file or a directory and answers its inode number. -/
def create (now : UInt32) (path : String) (permissions : UInt32) (type : FileType) (owner : Owner) :
    EStateM Failure FileSystem UInt32 :=
  transact fun v => v.create now path permissions type owner

def deleteFile (path : String) : EStateM Failure FileSystem Unit :=
  transact fun v => v.deleteFile path

def deleteDirectory (path : String) : EStateM Failure FileSystem Unit :=
  transact fun v => v.deleteDirectory path

def rename (source target : String) : EStateM Failure FileSystem Unit :=
  transact fun v => v.rename source target

def setPermissions (path : String) (mode : UInt32) : EStateM Failure FileSystem Unit :=
  transact fun v => v.setPermissions path mode

def setModified (path : String) (mtime : UInt32) : EStateM Failure FileSystem Unit :=
  transact fun v => v.setModified path mtime

def truncate (path : String) (length : Int) : EStateM Failure FileSystem Unit :=
  transact fun v => v.truncate path length

def write (now : UInt32) (path : String) (offset : Nat) (bytes : List UInt8) :
    EStateM Failure FileSystem Nat :=
  transact fun v => v.write now path offset bytes

def read (path : String) (offset : Nat) (buffer : List UInt8) : StateM FileSystem Filled :=
  fun fs =>
  match ask (fun v => v.locate path 0) fs with
  | .error failure fs => (⟨.error failure, buffer⟩, fs)
  | .ok (_, inode) fs =>
    let (filled, device) := inode.readInto offset buffer fs.device
    (filled, { fs with device := device })

def sync : EStateM Failure FileSystem Unit := onDevice Device.flush

/-- Drops what is held in memory and mounts the file system again; on failure it is kept. -/
def remount : EStateM Failure FileSystem Unit := do
  let volume ← onDevice Device.mount
  modify fun fs => { fs with volume := volume }

end FileSystem

/-- A call of an operation. -/
inductive Request where
  | lookup (path : String)
  | attributes (path : String)
  | list (path : String)
  | create (path : String) (permissions : UInt32) (type : FileType) (owner : Owner)
  | deleteFile (path : String)
  | deleteDirectory (path : String)
  | rename (source target : String)
  | setPermissions (path : String) (mode : UInt32)
  | setModified (path : String) (mtime : UInt32)
  | truncate (path : String) (length : Int)
  | write (path : String) (offset : Nat) (bytes : List UInt8)
  | read (path : String) (offset : Nat) (buffer : List UInt8)
  | statistics
  | usage
  | sync
  | remount

/-- What an operation answers. -/
inductive Response where
  | done
  | inode (id : UInt32)
  | attributes (attributes : Attributes)
  | listing (entries : List (String × Attributes))
  | written (count : Nat)
  | filled (count : Nat) (buffer : List UInt8)
  | statistics (statistics : Statistics)
  | usage (usage : Usage)
  deriving DecidableEq

namespace FileSystem

def perform (now : UInt32) : Request → EStateM Failure FileSystem Response
  | .lookup path => return .inode (← lookup path)
  | .attributes path => return .attributes (← attributes path)
  | .list path => return .listing (← list path)
  | .create path permissions type owner =>
    return .inode (← create now path permissions type owner)
  | .deleteFile path => do
    deleteFile path
    return .done
  | .deleteDirectory path => do
    deleteDirectory path
    return .done
  | .rename source target => do
    rename source target
    return .done
  | .setPermissions path mode => do
    setPermissions path mode
    return .done
  | .setModified path mtime => do
    setModified path mtime
    return .done
  | .truncate path length => do
    truncate path length
    return .done
  | .write path offset bytes => return .written (← write now path offset bytes)
  | .read path offset buffer => fun fs =>
    match read path offset buffer fs with
    | (⟨.ok count, buffer⟩, fs) => .ok (.filled count buffer) fs
    | (⟨.error failure, _⟩, fs) => .error failure fs
  | .statistics => return .statistics (← get).volume.usage.statistics
  | .usage => return .usage (← get).volume.usage
  | .sync => do
    sync
    return .done
  | .remount => do
    remount
    return .done

end FileSystem

end BlockFS
