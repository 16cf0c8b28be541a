import ByteAsm.Assembly.Workspace
import ByteAsm.CommandLine.Request

/-! Running the command line on some files. -/
namespace ByteAsm.CommandLine

/-- The exit code, the two texts that are printed, the fault that ended the run and the files
after it. -/
structure Report where
  exitCode : Nat
  stdout : String
  stderr : String
  fault : Option Fault
  files : FileStore

def usage : String := "usage: ASSEMBLER.py [-h] [-o OUTPUT] [INPUT ...]\n"

def help : String :=
  usage ++
  "\npositional arguments:\n" ++
  "  INPUT                 input files to assemble\n" ++
  "\noptions:\n" ++
  "  -h, --help            show this help message and exit\n" ++
  "  -o OUTPUT, --output OUTPUT\n" ++
  "                        output binary file\n"

def Request.fulfil (files : FileStore) : Request → Report
  | .help => ⟨0, CommandLine.help, "", none, files⟩
  | refuse e => ⟨2, "", usage ++ s!"ASSEMBLER.py: error: {e.message}\n", none, files⟩
  | assemble inputs output =>
    let o := Workspace.assembleAll output ⟨.fresh, files⟩ inputs
    ⟨if o.fault.isSome then 1 else 0, Notice.report o.notices, "", o.fault, o.state.files⟩

def run (args : List String) (files : FileStore) : Report := (Request.ofArguments args).fulfil files

end ByteAsm.CommandLine
