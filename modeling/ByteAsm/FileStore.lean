import ByteAsm.Fault
import Std.Data.TreeMap

/-! Files by path. Paths are relative to a current directory, which always exists. -/
namespace ByteAsm

namespace FileStore

inductive Entry
  | file (bytes : Array UInt8)
  | directory

abbrev Path := List String

/-- The path that a name describes. A leading slash is a step of its own, one at the end does not
count, and a step up is not followed. -/
def path (name : String) : Path :=
  match name.splitOn "/" with
  | "" :: parts => "" :: steps parts
  | parts => steps parts
where
  steps (parts : List String) : Path := parts.filter fun part => part ≠ "" && part ≠ "."

def nameOf : Path → String
  | [""] => "/"
  | path => "/".intercalate path

end FileStore

structure FileStore where
  entries : Std.TreeMap FileStore.Path FileStore.Entry

namespace FileStore

def empty : FileStore := ⟨∅⟩

def get? (files : FileStore) : Path → Option Entry
  | [] => some .directory
  | path => files.entries[path]?

def insert (files : FileStore) (path : Path) (entry : Entry) : FileStore :=
  ⟨files.entries.insert path entry⟩

def read (files : FileStore) (name : String) : Except Fault (Array UInt8) :=
  if name = "" then .error (.missingFile name)
  else
    match files.get? (path name) with
    | some (.file bytes) => .ok bytes
    | some .directory => .error (.directory name)
    | none => .error (.missingFile name)

/-- A file can be written where there is one already, and in any directory that exists. -/
def write (files : FileStore) (name : String) (bytes : Array UInt8) : Except Fault FileStore :=
  if name = "" then .error (.missingFile name)
  else
    match files.get? (path name), files.get? (path name).dropLast with
    | some .directory, _ => .error (.directory name)
    | some (.file _), _ | none, some .directory => .ok (files.insert (path name) (.file bytes))
    | none, _ => .error (.missingFile name)

theorem get?_insert_self {files : FileStore} {path : Path} {entry : Entry} (h : path ≠ []) :
    (files.insert path entry).get? path = some entry := by
  cases path with
  | nil => exact absurd rfl h
  | cons => simp [get?, insert]

theorem get?_insert_of_ne {files : FileStore} {path other : Path} {entry : Entry}
    (h : other ≠ path) : (files.insert path entry).get? other = files.get? other := by
  cases other with
  | nil => rfl
  | cons => simp [get?, insert, Std.TreeMap.getElem?_insert, h.symm]

end FileStore

end ByteAsm
