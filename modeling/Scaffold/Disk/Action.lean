import Scaffold.Disk.Operations
import Scaffold.Error

/-!
Actions on a disk. An action looks at the disk and performs operations on it one after the other, so
it may fail after some of them. It is written for any monad that has a disk; on `StateM Disk` it is
a function from the disk before it to the disk after it.
-/

namespace Scaffold

/-- A change of a disk that happens as a whole or not at all. -/
inductive DiskOperation where
  | createDirectory (p : Path)
  | writeFile (p : Path) (content : ByteArray)
  | rename (source target : Path)
  | removeAll (p : Path)

def DiskOperation.apply (d : Disk) : DiskOperation → Except FileError Disk
  | .createDirectory p => d.createDirectory p
  | .writeFile p content => d.writeBytes p content
  | .rename source target => d.rename source target
  | .removeAll p => d.removeAll p

/-- The monads that have a disk. -/
class MonadDisk (m : Type → Type) where
  look : m Disk
  attempt : DiskOperation → m (Except FileError Unit)

instance : MonadDisk (StateM Disk) where
  look := get
  attempt operation := fun d =>
    match operation.apply d with
    | .ok d' => (.ok (), d')
    | .error e => (.error e, d)

instance {ε : Type} {m : Type → Type} [Monad m] [MonadDisk m] : MonadDisk (ExceptT ε m) where
  look := ExceptT.lift MonadDisk.look
  attempt operation := ExceptT.lift (MonadDisk.attempt operation)

namespace DiskAction

variable {m : Type → Type} [Monad m] [MonadDisk m]

/-- Performs an operation, and fails if it does. -/
def perform (operation : DiskOperation) : ExceptT Error m Unit := do
  match ← MonadDisk.attempt operation with
  | .ok () => return
  | .error e => throw (.disk e)

/-- Fails unless a path leads to a directory. -/
def requireDirectory (p : Path) (e : FileError) : ExceptT Error m Unit := do
  if !(← MonadDisk.look).isDirectory p then
    throw (.disk e)

/-- Creates the first of some paths as a directory, where each path is the parent of the one before
it. A directory that is there already is fine. -/
def createChain : List Path → ExceptT Error m Unit
  | [] => throw (.disk .notFound)
  | p :: parents => do
    if p.bytes ≠ [] then
      match ← MonadDisk.attempt (.createDirectory p) with
      | .ok () => return
      | .error .notFound =>
        createChain parents
        match ← MonadDisk.attempt (.createDirectory p) with
        | .ok () => return
        | .error e => requireDirectory p e
      | .error e => requireDirectory p e

/-- Creates a directory and the parents that are missing. -/
def createDirectories (p : Path) : ExceptT Error m Unit :=
  createChain p.ancestors

/-- Writes a file and creates the directories that it needs. -/
def writeFile (p : Path) (content : ByteArray) : ExceptT Error m Unit := do
  if let some parent := p.parent? then
    createDirectories parent
  perform (.writeFile p content)

/-- Creates a temporary directory, and removes what stands at its path after the action, whether
that has failed or not. -/
def withTemporary [TemporaryNames] {α : Type} (parent : Path) (action : Path → ExceptT Error m α) :
    ExceptT Error m α := do
  let temporary := (← MonadDisk.look).freshPath parent
  perform (.createDirectory temporary)
  let result ← ExceptT.lift (action temporary).run
  let _ ← MonadDisk.attempt (.removeAll temporary)
  MonadExcept.ofExcept result

end DiskAction

end Scaffold
