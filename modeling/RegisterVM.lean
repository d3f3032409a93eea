import RegisterVM.Instruction.Listing
import RegisterVM.Main
import RegisterVM.Proofs.Word.Remainder
import RegisterVM.Proofs.Word.SignExtension
import RegisterVM.Proofs.Word.Readings
import RegisterVM.Proofs.Memory.History
import RegisterVM.Proofs.Codec.RoundTrip
import RegisterVM.Proofs.Codec.Truncation
import RegisterVM.Proofs.Codec.Canonical
import RegisterVM.Proofs.Codec.Narrowing
import RegisterVM.Proofs.Text.Meaning
import RegisterVM.Proofs.Text.Layout
import RegisterVM.Proofs.Text.Numerals
import RegisterVM.Proofs.Text.Display
import RegisterVM.Proofs.Machine.Atomicity
import RegisterVM.Proofs.Machine.Footprint
import RegisterVM.Proofs.Machine.Dependence
import RegisterVM.Proofs.Machine.Trace
import RegisterVM.Proofs.Machine.Termination
import RegisterVM.Proofs.Machine.Assembled
import RegisterVM.Proofs.Machine.Resumption
import RegisterVM.Proofs.Machine.Faults
import RegisterVM.Proofs.Machine.Arithmetic
import RegisterVM.Proofs.Machine.Results
import RegisterVM.Proofs.Machine.Stack
import RegisterVM.Proofs.Machine.Logs
import RegisterVM.Proofs.Machine.Normalization
import RegisterVM.Proofs.Machine.WideImmediates
import RegisterVM.Proofs.Machine.UpperHalves
import RegisterVM.Proofs.Machine.Cycles
import RegisterVM.Proofs.Machine.Displacement
import RegisterVM.Proofs.Machine.StackWindow
import RegisterVM.Proofs.Listing.Sweep
import RegisterVM.Proofs.Listing.Following
import RegisterVM.Proofs.Checked.Run
