import EcatDevice.Bytes.LittleEndian
import EcatDevice.Error

/-! # Storage

Reading and writing of files, as a pair of actions of some monad: the file system of the machine, or
a tree in memory. A write either replaces one whole file or fails without effect.
-/

namespace EcatDevice

inductive Content where
  | text (text : String)
  | bytes (bytes : Bytes)
  deriving DecidableEq, Repr

structure Storage (m : Type → Type) where
  read : String → m (Except FileFault String)
  /-- Replaces the file at a path. -/
  write : String → Content → m (Except FileFault Unit)

/-- The path of `target` seen from a directory; an absolute one stays as it is. -/
def joinPath (directory target : String) : String :=
  if target.startsWith "/" || directory = "" then target
  else if directory.endsWith "/" then directory ++ target
  else directory ++ "/" ++ target

end EcatDevice
