import ProgramScan.Opcode.Basic
import ProgramScan.Reader

/-!
# Short forms and reading of opcodes

Many opcodes abbreviate a general one: a short operand, or an operand that the opcode itself fixes.

* `general`        the opcode that a short form abbreviates, itself for the others;
* `implicit?`      the operand that a short form without operand bytes stands for;
* `ofByte?`, `ofExtendedByte?`   the opcode of a one-byte and of a two-byte encoding;
* `Opcode.read`    the next opcode of a byte string.
-/

namespace ProgramScan

namespace Opcode

/-- the opcode that a short form abbreviates -/
def general : Opcode → Opcode
  | .ldarg0 | .ldarg1 | .ldarg2 | .ldarg3 | .ldargS => .ldarg
  | .ldargaS => .ldarga
  | .stargS => .starg
  | .ldloc0 | .ldloc1 | .ldloc2 | .ldloc3 | .ldlocS => .ldloc
  | .ldlocaS => .ldloca
  | .stloc0 | .stloc1 | .stloc2 | .stloc3 | .stlocS => .stloc
  | .ldcI4M1 | .ldcI40 | .ldcI41 | .ldcI42 | .ldcI43 | .ldcI44 | .ldcI45 | .ldcI46 | .ldcI47
  | .ldcI48 | .ldcI4S => .ldcI4
  | .brS => .br
  | .brfalseS => .brfalse
  | .brtrueS => .brtrue
  | .beqS => .beq
  | .bgeS => .bge
  | .bgtS => .bgt
  | .bleS => .ble
  | .bltS => .blt
  | .bneUnS => .bneUn
  | .bgeUnS => .bgeUn
  | .bgtUnS => .bgtUn
  | .bleUnS => .bleUn
  | .bltUnS => .bltUn
  | .leaveS => .leave
  | op => op

/-- the operand that a short form without operand bytes stands for -/
def implicit? : Opcode → Option Int
  | .ldarg0 | .ldloc0 | .stloc0 | .ldcI40 => some 0
  | .ldarg1 | .ldloc1 | .stloc1 | .ldcI41 => some 1
  | .ldarg2 | .ldloc2 | .stloc2 | .ldcI42 => some 2
  | .ldarg3 | .ldloc3 | .stloc3 | .ldcI43 => some 3
  | .ldcI44 => some 4
  | .ldcI45 => some 5
  | .ldcI46 => some 6
  | .ldcI47 => some 7
  | .ldcI48 => some 8
  | .ldcI4M1 => some (-1)
  | _ => none

/-- true for the opcodes that abbreviate another one -/
def isShort (op : Opcode) : Bool := op.general ≠ op

def escapeByte : UInt8 := 0xFE

def ofByte? (byte : UInt8) : Option Opcode :=
  all.find? fun op => op.encoding = byte.toNat

def ofExtendedByte? (byte : UInt8) : Option Opcode :=
  all.find? fun op => op.encoding = 0xFE00 + byte.toNat

def bytes (op : Opcode) : List UInt8 :=
  if 0xFF < op.encoding then [escapeByte, UInt8.ofNat (op.encoding % 256)]
  else [UInt8.ofNat op.encoding]

def nextByte (rd : Reader) : Except Error (UInt8 × Reader) :=
  match rd.rest with
  | [] => .error .outOfBounds
  | byte :: rest => .ok (byte, ⟨rd.position + 1, rest⟩)

/-- the next opcode and what follows it; a failing read tells how far it came -/
def read (rd : Reader) : Except Error Opcode × Reader :=
  match nextByte rd with
  | .error e => (.error e, rd)
  | .ok (first, rd) =>
    if first = escapeByte then
      match nextByte rd with
      | .error e => (.error e, rd)
      | .ok (second, rd) =>
        match ofExtendedByte? second with
        | some op => (.ok op, rd)
        | none => (.error (.malformed (.unknownExtendedOpcode second)), rd)
    else
      match ofByte? first with
      | some op => (.ok op, rd)
      | none => (.error (.malformed (.unknownOpcode first)), rd)

end Opcode

end ProgramScan
