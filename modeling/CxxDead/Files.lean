import CxxDead.PathContainment
/-!
# The file system of a run

What the readers of metadata, policies and command lines ask the file system.
-/

namespace CxxDead

/-- An entry of a directory; the time of its last change only has to be compared. -/
structure DirectoryEntry where
  name : Bytes
  isRegular : Bool
  modified : Int
  plain : Path.Plain name

/-- A directory in the order in which it is listed. -/
structure Listing where
  entries : List DirectoryEntry
  distinct : (entries.map (·.name)).Nodup

structure Files where
  currentPath : Except Exception Path
  /-- The contents, or nothing where the file cannot be opened. -/
  contents : Path → Option Bytes
  isDirectory : Path → Except Exception Bool
  entries : Path → Except Exception Listing

/-- `std::filesystem::absolute(path).lexically_normal()`. -/
def Files.absoluteNormal (files : Files) (path : Path) : Except Exception Path :=
  (path.absolute files.currentPath).map Path.lexicallyNormal

/-- What paths are made absolute with. -/
def Files.disk (files : Files) : Disk := ⟨files.currentPath, fun _ => .cannotOpen, fun _ => .irregular⟩

end CxxDead
