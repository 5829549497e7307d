import CycleTable.Main
import CycleTable.Proofs.Text.Ascii
import CycleTable.Proofs.Text.Lines
import CycleTable.Proofs.Operand
import CycleTable.Proofs.Statement
import CycleTable.Proofs.Descriptor.Spelling
import CycleTable.Proofs.Descriptor.Loading
import CycleTable.Proofs.Descriptor.OneLine
import CycleTable.Proofs.Descriptor.Grammar
import CycleTable.Proofs.Descriptor.Printing
import CycleTable.Proofs.Descriptor.Stored
import CycleTable.Proofs.Microcode.Cases
import CycleTable.Proofs.Microcode.Complete
import CycleTable.Proofs.IntelHex.Line
import CycleTable.Proofs.IntelHex.Shape
import CycleTable.Proofs.IntelHex.Reading
import CycleTable.Proofs.IntelHex.Image
import CycleTable.Proofs.IntelHex.Written
import CycleTable.Proofs.IntelHex.Damage
import CycleTable.Proofs.IntelHex.Session
import CycleTable.Proofs.IntelHex.InPlace
import CycleTable.Proofs.Table.Walk
import CycleTable.Proofs.Table.Difference
import CycleTable.Proofs.Table.Verdict
import CycleTable.Proofs.Table.Rejection
import CycleTable.Proofs.Table.Source
import CycleTable.Proofs.Table.Listing
import CycleTable.Proofs.Table.BusDiscipline
import CycleTable.Proofs.Run.Decision
import CycleTable.Proofs.Run.Destination
import CycleTable.Proofs.Run.Indifference
