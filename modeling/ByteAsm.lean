import ByteAsm.Main
import ByteAsm.Proofs.Listing
import ByteAsm.Proofs.Placing
import ByteAsm.Proofs.Layout
import ByteAsm.Proofs.Resolution
import ByteAsm.Proofs.Denotation
import ByteAsm.Proofs.Disassembly
import ByteAsm.Proofs.CharacterClass
import ByteAsm.Proofs.Spelling
import ByteAsm.Proofs.Escaping
import ByteAsm.Proofs.Written
import ByteAsm.Proofs.Correctness
import ByteAsm.Proofs.Session
import ByteAsm.Proofs.Integrity
import ByteAsm.Proofs.Overwriting
import ByteAsm.Proofs.Repatching
import ByteAsm.Proofs.FileSequence
import ByteAsm.Proofs.Stopping
import ByteAsm.Proofs.Growth
import ByteAsm.Proofs.Waiting
import ByteAsm.Proofs.Concatenation
import ByteAsm.Proofs.Relocation
import ByteAsm.Proofs.OutputFile
import ByteAsm.Proofs.Footprint
import ByteAsm.Proofs.Progress
import ByteAsm.Proofs.CodeStream
import ByteAsm.Proofs.BlockComment
import ByteAsm.Proofs.Settling
import ByteAsm.Proofs.Grammar
import ByteAsm.Proofs.LineComment
import ByteAsm.Proofs.Recognition
import ByteAsm.Proofs.WordTarget
import ByteAsm.Proofs.Segmentation
import ByteAsm.Proofs.StringData
import ByteAsm.Proofs.TokenEnd
import ByteAsm.Proofs.NumberOperand
import ByteAsm.Proofs.TrialOrder
import ByteAsm.Proofs.Skipping
