/-!
# Little-endian numbers

A number is spelled by bytes, the least significant first. `encode` writes the
low `count` bytes of a number and `decode` reads any byte string back, which
`encode_decode` writes as it was.
-/

namespace RegisterVM.LittleEndian

/-- The low `count` bytes of `value`, least significant first. -/
def encode : Nat → Nat → List UInt8
  | 0, _ => []
  | count + 1, value => UInt8.ofNat value :: encode count (value / 256)

/-- The number that `bytes` spell: the sum of `256 ^ i` times the byte at `i`. -/
def decode : List UInt8 → Nat
  | [] => 0
  | byte :: bytes => byte.toNat + 256 * decode bytes

/-- Takes a number of `count` bytes off the front, together with the bytes
after it. There is none if the bytes run out first. -/
def decodeFront? (count : Nat) (bytes : List UInt8) : Option (Nat × List UInt8) :=
  if count ≤ bytes.length then some (decode (bytes.take count), bytes.drop count) else none

@[simp] theorem length_encode (count value : Nat) : (encode count value).length = count := by
  induction count generalizing value with
  | zero => rfl
  | succ count ih => simp [encode, ih]

/-- Every byte string is the spelling of its own number. -/
@[simp] theorem encode_decode (bytes : List UInt8) :
    encode bytes.length (decode bytes) = bytes := by
  induction bytes with
  | nil => rfl
  | cons byte bytes ih =>
      have low : UInt8.ofNat (byte.toNat + 256 * decode bytes) = byte := by
        apply UInt8.toNat.inj
        have := byte.toNat_lt
        rw [UInt8.toNat_ofNat']
        omega
      have rest : (byte.toNat + 256 * decode bytes) / 256 = decode bytes := by
        have := byte.toNat_lt
        omega
      rw [List.length_cons, decode, encode, low, rest, ih]

end RegisterVM.LittleEndian
