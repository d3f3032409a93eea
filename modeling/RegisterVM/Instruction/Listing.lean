import RegisterVM.Instruction.Codec

/-!
# Linear listings

A byte string read as one instruction after the other, from its start to the
first place where there is none. The listing ends there with the fault found,
at the latest at the end of the bytes.
-/

namespace RegisterVM

/-- The instructions found, each at its offset, and the offset and the fault
that end the listing. -/
structure Listing where
  entries : List (Nat × Decoded)
  offset : Nat
  fault : DecodeFault

namespace Listing

/-- Reads on from `offset`, where `bytes` are what is left. -/
def sweep (offset : Nat) (bytes : List UInt8) : Listing :=
  match _read : decode bytes with
  | .error fault => ⟨[], offset, fault⟩
  | .ok decoded =>
      let later := sweep (offset + decoded.size) (bytes.drop decoded.size)
      { later with entries := (offset, decoded) :: later.entries }
termination_by bytes.length
decreasing_by
  have := decode_size _read
  simp only [List.length_drop]
  omega

/-- The listing of all of `bytes`. -/
def ofBytes (bytes : List UInt8) : Listing :=
  sweep 0 bytes

end Listing

end RegisterVM
