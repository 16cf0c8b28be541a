import ByteAsm.Assembly.Program
import ByteAsm.Assembly.Resolve
import ByteAsm.FileStore
import ByteAsm.Text.Newline

/-! Assembling files. All files go into one image, which is written after each of them. -/
namespace ByteAsm

open Text

structure Workspace where
  state : State
  files : FileStore

namespace Workspace

def source (files : FileStore) (name : String) : Except Fault (List Char) :=
  match files.read name with
  | .error f => .error f
  | .ok bytes =>
    match Utf8.decode bytes.toList with
    | .error e => .error (.encoding e)
    | .ok text => .ok (unifyNewlines text)

/-- Write the image of a state whose program is complete. The text is gone then. -/
def save (output : String) (files : FileStore) (o : Outcome State) : Outcome Workspace :=
  match o with
  | ⟨s, notices, some f⟩ => ⟨⟨s, files⟩, notices, some f⟩
  | ⟨s, notices, none⟩ =>
    let s := { s with text := none }
    match files.write output s.image with
    | .error f => ⟨⟨s, files⟩, notices, some f⟩
    | .ok files => ⟨⟨s, files⟩, notices ++ [.imageWritten s.image.size output], none⟩

/-- Assemble a file behind what is in the image already, resolve all branches and write the
image. -/
def assembleWith (act : Source.Statement.Meaning) (output : String) (w : Workspace) (input : String) :
    Outcome Workspace :=
  match w with
  | ⟨s, files⟩ =>
    match source files input with
    | .error f => ⟨⟨s, files⟩, [], some f⟩
    | .ok text => save output files (((s.withText text).programWith act).andThen State.resolve)

def assemble (output : String) (w : Workspace) (input : String) : Outcome Workspace :=
  assembleWith Source.Statement.action output w input

section

variable {output input : String} {s : State} {files : FileStore} {text : List Char} {f : Fault}

theorem assembleWith_of_source (act : Source.Statement.Meaning) (h : source files input = .ok text) :
    assembleWith act output ⟨s, files⟩ input =
      save output files (((s.withText text).programWith act).andThen State.resolve) := by
  simp only [assembleWith, h]

theorem assembleWith_of_source_error (act : Source.Statement.Meaning)
    (h : source files input = .error f) :
    assembleWith act output ⟨s, files⟩ input = ⟨⟨s, files⟩, [], some f⟩ := by
  simp only [assembleWith, h]

theorem assemble_of_source (h : source files input = .ok text) :
    assemble output ⟨s, files⟩ input =
      save output files ((s.withText text).program.andThen State.resolve) :=
  assembleWith_of_source _ h

theorem assemble_of_source_error (h : source files input = .error f) :
    assemble output ⟨s, files⟩ input = ⟨⟨s, files⟩, [], some f⟩ :=
  assembleWith_of_source_error _ h

end

def assembleAll (output : String) (w : Workspace) (inputs : List String) : Outcome Workspace :=
  Outcome.forEach (assemble output) w inputs

end Workspace

end ByteAsm
