import ProgramScan.Decimal.Shortest
import ProgramScan.Opcode.Forms
import ProgramScan.Registry.NameUse
import ProgramScan.Text.Quoted

/-!
# Instructions

A decoded instruction has its operand resolved: tokens have become the elements they denote, and
displacements have become offsets.

* `Operand`, `StackEffect`, `Instruction`   the records;
* `Instruction.render`                      one line of a listing;
* `Instruction.same`                        equality, where elements are compared by identity key.
-/

namespace ProgramScan

inductive Operand
  | none
  | int (value : Int)
  | int64 (value : Int)
  | single (bits : Nat)
  | double (bits : Nat)
  | string (text : String)
  | branch (target : Nat)
  | switch (targets : List Nat)
  | var (index : Nat)
  | byte (value : Nat)
  /-- a method, with its number once a scan has given it one -/
  | method (method : MethodId) (uid : Option Nat)
  | field (field : FieldId)
  | type (type : TypeId)
  /-- an element loaded as a handle -/
  | token (item : Item)
  | signature (site : CallSite)

structure StackEffect where
  pops : Nat := 0
  /-- types of the popped values, only given for replacement bodies -/
  popTypes : List (Option TypeId) := []
  /-- types of the pushed values, `none` where the opcode does not tell -/
  pushTypes : List (Option TypeId) := []

namespace StackEffect

def pushes (s : StackEffect) : Nat := s.pushTypes.length

def net (s : StackEffect) : Int := s.pushes - s.pops

end StackEffect

structure Instruction where
  /-- the opcode, short forms expanded -/
  opcode : Opcode
  encoded : Opcode
  offset : Nat
  next : Nat
  operand : Operand
  /-- index of the innermost exception region -/
  region : Option Nat := none
  stack : StackEffect := {}

namespace Instruction

/-- an instruction without region and stack effect -/
def ofEncoded (op : Opcode) (offset next : Nat) (operand : Operand) : Instruction :=
  { opcode := op.general, encoded := op, offset, next, operand }

def size (i : Instruction) : Nat := i.next - i.offset

def targets (i : Instruction) : List Nat :=
  match i.operand with
  | .branch target => [target]
  | .switch targets => targets
  | _ => []

def method? (i : Instruction) : Option MethodId :=
  match i.operand with
  | .method m _ => some m
  | .token item => item.method?
  | _ => none

def field? (i : Instruction) : Option FieldId :=
  match i.operand with
  | .field f => some f
  | .token item => item.field?
  | _ => none

def type? (i : Instruction) : Option TypeId :=
  match i.operand with
  | .type t => some t
  | .token item => item.type?
  | _ => none

end Instruction

def offsetText (offset : Nat) : String := "IL_" ++ Text.hexUpper 4 offset

/-- the operand part of a listing line, with a blank in front -/
def Operand.render (r : Registry) : Operand → String
  | .none => ""
  | .int value => " " ++ toString value
  | .int64 value => " " ++ toString value
  | .single bits => " " ++ (Decimal.single.decode bits).text
  | .double bits => " " ++ (Decimal.double.decode bits).text
  | .string text => " " ++ Text.quote text
  | .branch target => " " ++ offsetText target
  | .switch targets => " (" ++ String.intercalate ", " (targets.map offsetText) ++ ")"
  | .var index => " " ++ toString index
  | .byte value => " " ++ toString value
  | .method m _ => " " ++ r.methodName m
  | .field f => " " ++ r.fieldName f
  | .type t => " " ++ r.fullName t
  | .token item => " " ++ r.itemName item
  | .signature site =>
    " (" ++ toString site.paramCount ++ " params" ++ (if site.hasThis then ", instance" else "") ++
      ")"

/-- the types that the operand part of a listing line shows -/
def Operand.uses (r : Registry) : Operand → List TypeId
  | .method m _ => r.methodUses m
  | .field f => r.fieldUses f
  | .type t => [t]
  | .token item => r.itemUses item
  | _ => []

/-- the line of a listing -/
def Instruction.render (r : Registry) (i : Instruction) : String :=
  offsetText i.offset ++ ": " ++ i.opcode.mnemonic ++ i.operand.render r

/-- equality of operands, elements compared by identity key -/
def Operand.same (r : Registry) : Operand → Operand → Bool
  | .none, .none => true
  | .int a, .int b => a == b
  | .int64 a, .int64 b => a == b
  | .single a, .single b => a == b
  | .double a, .double b => a == b
  | .string a, .string b => a == b
  | .branch a, .branch b => a == b
  | .switch a, .switch b => a == b
  | .var a, .var b => a == b
  | .byte a, .byte b => a == b
  | .method a ua, .method b ub => ua == ub && r.methodKey a == r.methodKey b
  | .field a, .field b => r.fieldKey a == r.fieldKey b
  | .type a, .type b => r.typeKey a == r.typeKey b
  | .token a, .token b => r.itemKey a == r.itemKey b
  | .signature a, .signature b =>
    a.paramCount == b.paramCount && a.hasThis == b.hasThis &&
      r.siteReturnsValue a == r.siteReturnsValue b
  | _, _ => false

def Operand.sameUses (r : Registry) : Operand → Operand → List TypeId
  | .signature a, .signature b =>
    if a.paramCount == b.paramCount && a.hasThis == b.hasThis then
      a.returnType.toList ++ b.returnType.toList
    else []
  | .method a ua, .method b ub => if ua == ub then r.methodUses a ++ r.methodUses b else []
  | .field a, .field b => r.fieldUses a ++ r.fieldUses b
  | .type a, .type b => [a, b]
  | .token a, .token b => r.itemUses a ++ r.itemUses b
  | _, _ => []

def StackEffect.same (r : Registry) (a b : StackEffect) : Bool :=
  a.pops == b.pops && r.sameKnowns a.popTypes b.popTypes && r.sameKnowns a.pushTypes b.pushTypes

def StackEffect.sameUses (r : Registry) (a b : StackEffect) : List TypeId :=
  if a.pops == b.pops && a.pushes == b.pushes then
    r.sameKnownsUses a.popTypes b.popTypes ++
      if r.sameKnowns a.popTypes b.popTypes then r.sameKnownsUses a.pushTypes b.pushTypes else []
  else []

/-- names read when operands and stack effects of two instructions are compared -/
def Instruction.sameUses (r : Registry) (a b : Instruction) : List TypeId :=
  a.operand.sameUses r b.operand ++ a.stack.sameUses r b.stack

def Instruction.same (r : Registry) (a b : Instruction) : Bool :=
  a.opcode = b.opcode && a.encoded = b.encoded && a.offset == b.offset && a.next == b.next &&
    a.operand.same r b.operand && a.region == b.region && a.stack.same r b.stack

/-- equality of instruction sequences -/
def Instruction.sameAll (r : Registry) (as bs : List Instruction) : Bool :=
  as.length == bs.length && (as.zip bs).all fun (a, b) => a.same r b

end ProgramScan
