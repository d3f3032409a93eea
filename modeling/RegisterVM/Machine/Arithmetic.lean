import RegisterVM.Fault
import RegisterVM.Instruction.Opcode

/-!
# Arithmetic

The results of the arithmetic operations at a width. Operands come narrowed to
the width. The operations work on whole 64-bit words, on the operands' two's
complement readings where the operation is signed, and narrow the result.
-/

namespace RegisterVM

/-- The result of an operation on its source operand. -/
def UnaryOp.eval (op : UnaryOp) (width : Width) (value : UInt64) : UInt64 :=
  width.truncate <|
    match op with
    | not => ~~~value
    | neg => -value

/-- The result of an operation on both operands, the first on the left. The
divisions refuse a divisor of zero. The signed ones round toward zero and wrap,
so that the least number divided by `-1` is itself; a shift takes its count
modulo the bits of the width. -/
def BinaryOp.eval (op : BinaryOp) (width : Width) (left right : UInt64) :
    Except ExecutionFault UInt64 :=
  let signedLeft := width.signExtend left
  let signedRight := width.signExtend right
  let shift := right % UInt64.ofNat width.bits
  let divided (quotient : UInt64) : Except ExecutionFault UInt64 :=
    if right = 0 then .error .divisionByZero else .ok (width.truncate quotient)
  match op with
  | add => .ok (width.truncate (left + right))
  | sub => .ok (width.truncate (left - right))
  | mul => .ok (width.truncate (signedLeft * signedRight).toUInt64)
  | mulu => .ok (width.truncate (left * right))
  | div => divided (signedLeft / signedRight).toUInt64
  | divu => divided (left / right)
  | mod => divided (signedLeft % signedRight).toUInt64
  | modu => divided (left % right)
  | and => .ok (width.truncate (left &&& right))
  | or => .ok (width.truncate (left ||| right))
  | xor => .ok (width.truncate (left ^^^ right))
  | shl => .ok (width.truncate (left <<< shift))
  | shr => .ok (width.truncate (left >>> shift))

end RegisterVM
