import ProgramScan.Instruction.Intrinsic
import ProgramScan.Registry.Resolve

/-!
# Decoding method bodies

The bytes of a body are cut into instructions: an opcode, then an operand of the width that the
opcode asks for.  Tokens are resolved in the module that owns the code, under the generic arguments
of the method; displacements count from the end of the instruction (for a jump table from the end of
the table) and must lead to an offset of the body.

* `operandOf?`    the operand that a resolved token gives for an operand kind;
* `readOperand`   the operand of an opcode;
* `decodeFrom`    the instructions from a position to the end;
* `decode`        the instructions of a method, with their stack effects.
-/

namespace ProgramScan

/-- What the code of a method is decoded against. -/
structure DecodeContext where
  method : MethodId
  /-- the module that owns the tokens -/
  module : ModuleId
  generic : GenericContext
  size : Nat

def operandOf? : OperandKind → Resolved → Option Operand
  | .method, .method m => some (.method m none)
  | .field, .field f => some (.field f)
  | .type, .type t => some (.type t)
  | .token, .type t => some (.token (.type t))
  | .token, .method m => some (.token (.method m))
  | .token, .field f => some (.token (.field f))
  | .string, .string text => some (.string text)
  | .signature, .signature site => some (.signature site)
  | _, _ => none

def implicitOperand (op : Opcode) : Operand :=
  match op.implicit? with
  | none => .none
  | some value => if op.general = .ldcI4 then .int value else .var value.toNat

namespace Registry

/-- the absolute branch target, if it is an offset of the body -/
def branchTarget (ctx : DecodeContext) (offset : Nat) (target : Int) : Action Nat := do
  if 0 ≤ target && target < ctx.size then
    return target.toNat
  else
    throw (.branchOutOfRange ((← get).methodName ctx.method) offset target)

def readUnsigned (width : Nat) (rd : Reader) : Action (Nat × Reader) :=
  MonadExcept.ofExcept (rd.unsigned width)

def readSigned (width : Nat) (rd : Reader) : Action (Int × Reader) :=
  MonadExcept.ofExcept (rd.signed width)

def readBranch (ctx : DecodeContext) (offset width : Nat) (rd : Reader) :
    Action (Operand × Reader) := do
  let (delta, rd) ← readSigned width rd
  let target ← branchTarget ctx offset (rd.position + delta)
  return (.branch target, rd)

/-- `count` targets of a jump table that ends at `tableEnd` -/
def readTargets (ctx : DecodeContext) (offset tableEnd : Nat) :
    Nat → Reader → Action (List Nat × Reader)
  | 0, rd => return ([], rd)
  | count + 1, rd => do
    let (delta, rd) ← readSigned 4 rd
    let target ← branchTarget ctx offset (tableEnd + delta)
    let (targets, rd) ← readTargets ctx offset tableEnd count rd
    return (target :: targets, rd)

def readSwitch (ctx : DecodeContext) (offset : Nat) (rd : Reader) : Action (Operand × Reader) := do
  let (count, rd) ← readUnsigned 4 rd
  let (targets, rd) ← readTargets ctx offset (rd.position + 4 * count) count rd
  return (.switch targets, rd)

/-- the element, string or signature that a token denotes, as an operand of `op` -/
def readToken (ctx : DecodeContext) (op : Opcode) (rd : Reader) : Action (Operand × Reader) := do
  let (value, rd) ← readUnsigned 4 rd
  let token : Token := ⟨UInt32.ofNat value⟩
  let found ← resolveToken ctx.module token ctx.generic
  match operandOf? op.operand found with
  | some operand => return (operand, rd)
  | none =>
    throw (.malformed
      (.wrongOperandKind token op.mnemonic ((← get).methodName ctx.method) found.kind))

def readOperand (ctx : DecodeContext) (offset : Nat) (op : Opcode) (rd : Reader) :
    Action (Operand × Reader) :=
  match op.operand with
  | .none => return (implicitOperand op, rd)
  | .shortBranch => readBranch ctx offset 1 rd
  | .branch => readBranch ctx offset 4 rd
  | .shortInt => do
    let (value, rd) ← readSigned 1 rd
    return (.int value, rd)
  | .byte => do
    let (value, rd) ← readUnsigned 1 rd
    return (.byte value, rd)
  | .int => do
    let (value, rd) ← readSigned 4 rd
    return (.int value, rd)
  | .int64 => do
    let (value, rd) ← readSigned 8 rd
    return (.int64 value, rd)
  | .shortFloat => do
    let (bits, rd) ← readUnsigned 4 rd
    return (.single bits, rd)
  | .float => do
    let (bits, rd) ← readUnsigned 8 rd
    return (.double bits, rd)
  | .shortVar => do
    let (index, rd) ← readUnsigned 1 rd
    return (.var index, rd)
  | .var => do
    let (index, rd) ← readUnsigned 2 rd
    return (.var index, rd)
  | .switch => readSwitch ctx offset rd
  | .method | .field | .type | .token | .string | .signature => readToken ctx op rd

def decodeNext (ctx : DecodeContext) (rd : Reader) : Action (Instruction × Reader) := do
  let (read, next) := Opcode.read rd
  let op ← MonadExcept.ofExcept read
  let (operand, next) ← readOperand ctx rd.position op next
  return (Instruction.ofEncoded op rd.position next.position operand, next)

/-- at most `count` instructions, up to the end of the body -/
def decodeFrom (ctx : DecodeContext) (regions : List Region) :
    Nat → Reader → Action (List Instruction)
  | 0, _ => return []
  | count + 1, rd =>
    if rd.hasMore then do
      let (i, next) ← decodeNext ctx rd
      let rest ← decodeFrom ctx regions count next
      return { i with region := enclosingRegion regions rd.position } :: rest
    else
      return []

/-- the instructions of a body, read against `ctx`; each takes at least one byte -/
def decodeBody (ctx : DecodeContext) (body : Body) : Action (List Instruction) :=
  decodeFrom ctx body.regions body.code.length (Reader.ofBytes body.code)

def decodeAs (m : MethodId) (module : ModuleId) (body : Body) : Action (List Instruction) := do
  let ctx := { method := m, module, generic := (← get).contextOf m, size := body.code.length }
  let code ← decodeBody ctx body
  withStackEffects m code

/-- the instructions of a method; a method without body has none -/
def decode (m : MethodId) : Action (List Instruction) := do
  match ← replacement? m with
  | some (.synthesized code) => return code
  | some (.redirect body module) => decodeAs m module body
  | none =>
    let r ← get
    match r.body? m, (r.method m).declaring with
    | none, _ => return []
    | some _, none => throw (.notSupported (.bodyWithoutModule (r.methodName m)))
    | some body, some declaring => decodeAs m (r.type declaring).module body

end Registry

end ProgramScan
