import ByteAsm.CommandLine.Report

/-! The command line on the files of the system. -/
namespace ByteAsm.CommandLine

def isDirectory (name : String) : IO Bool := do
  try
    (← IO.FS.realPath name).isDir
  catch _ => return false

def fetch (files : FileStore) (name : String) : IO FileStore := do
  if name = "" then return files
  if ← isDirectory name then return files.insert (FileStore.path name) .directory
  try
    return files.insert (FileStore.path name) (.file (← IO.FS.readBinFile name).data)
  catch _ => return files

/-- The files that a request may read or write, and the directory of its output. -/
def fetchAll : Request → IO FileStore
  | .assemble inputs output => do
    let folder := FileStore.nameOf (FileStore.path output).dropLast
    (folder :: output :: inputs).foldlM fetch .empty
  | _ => return .empty

/-- Put the output of a request back into the system. -/
def deliver (before after : FileStore) : Request → IO Unit
  | .assemble _ output =>
    match before.read output, after.read output with
    | .ok old, .ok new => if old == new then pure () else IO.FS.writeBinFile output ⟨new⟩
    | .error _, .ok new => IO.FS.writeBinFile output ⟨new⟩
    | _, .error _ => pure ()
  | _ => pure ()

end ByteAsm.CommandLine

open ByteAsm CommandLine in
def main (args : List String) : IO UInt32 := do
  let request := Request.ofArguments args
  let files ← fetchAll request
  let report := request.fulfil files
  IO.print report.stdout
  IO.eprint report.stderr
  deliver files report.files request
  if let some fault := report.fault then IO.eprintln fault.message
  return UInt32.ofNat report.exitCode
