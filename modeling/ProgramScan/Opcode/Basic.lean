/-!
# The opcode catalogue

Every instruction of the bytecode has one `Opcode`, and `Opcode.entry` lists its encoding, its
mnemonic, the shape of its operand and its effect on control flow.  Opcodes of two bytes have the
escape byte `0xFE` as the high byte of their encoding.
-/

namespace ProgramScan

/-- Shape of the operand that follows an opcode. -/
inductive OperandKind
  | none
  /-- signed displacement of one byte -/
  | shortBranch
  | branch
  /-- signed number of one byte -/
  | shortInt
  /-- unsigned number of one byte -/
  | byte
  | int
  | int64
  | shortFloat
  | float
  /-- argument or local index of one byte -/
  | shortVar
  /-- argument or local index of two bytes -/
  | var
  | method
  | field
  | type
  | token
  | string
  | signature
  /-- jump table: a count of four bytes and that many displacements of four bytes -/
  | switch
  deriving DecidableEq

/-- number of operand bytes; a jump table has no fixed size -/
def OperandKind.size? : OperandKind → Option Nat
  | .none => some 0
  | .shortBranch | .shortInt | .byte | .shortVar => some 1
  | .var => some 2
  | .branch | .int | .shortFloat | .method | .field | .type | .token | .string | .signature => some 4
  | .int64 | .float => some 8
  | .switch => Option.none

def OperandKind.label : OperandKind → String
  | .none => "None"
  | .shortBranch => "ShortBranch"
  | .branch => "Branch"
  | .shortInt => "ShortInt"
  | .byte => "Byte"
  | .int => "Int"
  | .int64 => "Int64"
  | .shortFloat => "ShortFloat"
  | .float => "Float"
  | .shortVar => "ShortVar"
  | .var => "Var"
  | .method => "Method"
  | .field => "Field"
  | .type => "Type"
  | .token => "Token"
  | .string => "String"
  | .signature => "Signature"
  | .switch => "Switch"

inductive Flow
  | next
  | branch
  | condBranch
  | call
  /-- leaves the method or a handler -/
  | ret
  | throw
  | breakpoint
  /-- changes the meaning of the next instruction -/
  | modifier
  deriving DecidableEq

def Flow.label : Flow → String
  | .next => "Next"
  | .branch => "Branch"
  | .condBranch => "CondBranch"
  | .call => "Call"
  | .ret => "Return"
  | .throw => "Throw"
  | .breakpoint => "Break"
  | .modifier => "Meta"

/-- The instructions of the bytecode. -/
inductive Opcode
  | nop | breakpoint | ldarg0 | ldarg1 | ldarg2 | ldarg3 | ldloc0 | ldloc1 | ldloc2 | ldloc3
  | stloc0 | stloc1 | stloc2 | stloc3 | ldargS | ldargaS | stargS | ldlocS | ldlocaS | stlocS
  | ldnull | ldcI4M1 | ldcI40 | ldcI41 | ldcI42 | ldcI43 | ldcI44 | ldcI45 | ldcI46 | ldcI47
  | ldcI48 | ldcI4S | ldcI4 | ldcI8 | ldcR4 | ldcR8 | dup | pop | jmp | call | calli | ret | brS
  | brfalseS | brtrueS | beqS | bgeS | bgtS | bleS | bltS | bneUnS | bgeUnS | bgtUnS | bleUnS
  | bltUnS | br | brfalse | brtrue | beq | bge | bgt | ble | blt | bneUn | bgeUn | bgtUn | bleUn
  | bltUn | switch | ldindI1 | ldindU1 | ldindI2 | ldindU2 | ldindI4 | ldindU4 | ldindI8 | ldindI
  | ldindR4 | ldindR8 | ldindRef | stindRef | stindI1 | stindI2 | stindI4 | stindI8 | stindR4
  | stindR8 | add | sub | mul | div | divUn | rem | remUn | and | or | xor | shl | shr | shrUn
  | neg | not | convI1 | convI2 | convI4 | convI8 | convR4 | convR8 | convU4 | convU8 | callvirt
  | cpobj | ldobj | ldstr | newobj | castclass | isinst | convRUn | unbox | throw | ldfld
  | ldflda | stfld | ldsfld | ldsflda | stsfld | stobj | convOvfI1Un | convOvfI2Un | convOvfI4Un
  | convOvfI8Un | convOvfU1Un | convOvfU2Un | convOvfU4Un | convOvfU8Un | convOvfIUn | convOvfUUn
  | box | newarr | ldlen | ldelema | ldelemI1 | ldelemU1 | ldelemI2 | ldelemU2 | ldelemI4
  | ldelemU4 | ldelemI8 | ldelemI | ldelemR4 | ldelemR8 | ldelemRef | stelemI | stelemI1
  | stelemI2 | stelemI4 | stelemI8 | stelemR4 | stelemR8 | stelemRef | ldelem | stelem | unboxAny
  | convOvfI1 | convOvfU1 | convOvfI2 | convOvfU2 | convOvfI4 | convOvfU4 | convOvfI8 | convOvfU8
  | refanyval | ckfinite | mkrefany | ldtoken | convU2 | convU1 | convI | convOvfI | convOvfU
  | addOvf | addOvfUn | mulOvf | mulOvfUn | subOvf | subOvfUn | endfinally | leave | leaveS
  | stindI | convU | arglist | ceq | cgt | cgtUn | clt | cltUn | ldftn | ldvirtftn | ldarg
  | ldarga | starg | ldloc | ldloca | stloc | localloc | endfilter | unaligned | volatile | tail
  | initobj | constrained | cpblk | initblk | no | rethrow | sizeof | refanytype | readonly
  deriving DecidableEq

structure OpcodeEntry where
  encoding : Nat
  mnemonic : String
  operand : OperandKind
  flow : Flow

def Opcode.entry : Opcode → OpcodeEntry
  | .nop => ⟨0x00, "nop", .none, .next⟩
  | .breakpoint => ⟨0x01, "break", .none, .breakpoint⟩
  | .ldarg0 => ⟨0x02, "ldarg.0", .none, .next⟩
  | .ldarg1 => ⟨0x03, "ldarg.1", .none, .next⟩
  | .ldarg2 => ⟨0x04, "ldarg.2", .none, .next⟩
  | .ldarg3 => ⟨0x05, "ldarg.3", .none, .next⟩
  | .ldloc0 => ⟨0x06, "ldloc.0", .none, .next⟩
  | .ldloc1 => ⟨0x07, "ldloc.1", .none, .next⟩
  | .ldloc2 => ⟨0x08, "ldloc.2", .none, .next⟩
  | .ldloc3 => ⟨0x09, "ldloc.3", .none, .next⟩
  | .stloc0 => ⟨0x0A, "stloc.0", .none, .next⟩
  | .stloc1 => ⟨0x0B, "stloc.1", .none, .next⟩
  | .stloc2 => ⟨0x0C, "stloc.2", .none, .next⟩
  | .stloc3 => ⟨0x0D, "stloc.3", .none, .next⟩
  | .ldargS => ⟨0x0E, "ldarg.s", .shortVar, .next⟩
  | .ldargaS => ⟨0x0F, "ldarga.s", .shortVar, .next⟩
  | .stargS => ⟨0x10, "starg.s", .shortVar, .next⟩
  | .ldlocS => ⟨0x11, "ldloc.s", .shortVar, .next⟩
  | .ldlocaS => ⟨0x12, "ldloca.s", .shortVar, .next⟩
  | .stlocS => ⟨0x13, "stloc.s", .shortVar, .next⟩
  | .ldnull => ⟨0x14, "ldnull", .none, .next⟩
  | .ldcI4M1 => ⟨0x15, "ldc.i4.m1", .none, .next⟩
  | .ldcI40 => ⟨0x16, "ldc.i4.0", .none, .next⟩
  | .ldcI41 => ⟨0x17, "ldc.i4.1", .none, .next⟩
  | .ldcI42 => ⟨0x18, "ldc.i4.2", .none, .next⟩
  | .ldcI43 => ⟨0x19, "ldc.i4.3", .none, .next⟩
  | .ldcI44 => ⟨0x1A, "ldc.i4.4", .none, .next⟩
  | .ldcI45 => ⟨0x1B, "ldc.i4.5", .none, .next⟩
  | .ldcI46 => ⟨0x1C, "ldc.i4.6", .none, .next⟩
  | .ldcI47 => ⟨0x1D, "ldc.i4.7", .none, .next⟩
  | .ldcI48 => ⟨0x1E, "ldc.i4.8", .none, .next⟩
  | .ldcI4S => ⟨0x1F, "ldc.i4.s", .shortInt, .next⟩
  | .ldcI4 => ⟨0x20, "ldc.i4", .int, .next⟩
  | .ldcI8 => ⟨0x21, "ldc.i8", .int64, .next⟩
  | .ldcR4 => ⟨0x22, "ldc.r4", .shortFloat, .next⟩
  | .ldcR8 => ⟨0x23, "ldc.r8", .float, .next⟩
  | .dup => ⟨0x25, "dup", .none, .next⟩
  | .pop => ⟨0x26, "pop", .none, .next⟩
  | .jmp => ⟨0x27, "jmp", .method, .call⟩
  | .call => ⟨0x28, "call", .method, .call⟩
  | .calli => ⟨0x29, "calli", .signature, .call⟩
  | .ret => ⟨0x2A, "ret", .none, .ret⟩
  | .brS => ⟨0x2B, "br.s", .shortBranch, .branch⟩
  | .brfalseS => ⟨0x2C, "brfalse.s", .shortBranch, .condBranch⟩
  | .brtrueS => ⟨0x2D, "brtrue.s", .shortBranch, .condBranch⟩
  | .beqS => ⟨0x2E, "beq.s", .shortBranch, .condBranch⟩
  | .bgeS => ⟨0x2F, "bge.s", .shortBranch, .condBranch⟩
  | .bgtS => ⟨0x30, "bgt.s", .shortBranch, .condBranch⟩
  | .bleS => ⟨0x31, "ble.s", .shortBranch, .condBranch⟩
  | .bltS => ⟨0x32, "blt.s", .shortBranch, .condBranch⟩
  | .bneUnS => ⟨0x33, "bne.un.s", .shortBranch, .condBranch⟩
  | .bgeUnS => ⟨0x34, "bge.un.s", .shortBranch, .condBranch⟩
  | .bgtUnS => ⟨0x35, "bgt.un.s", .shortBranch, .condBranch⟩
  | .bleUnS => ⟨0x36, "ble.un.s", .shortBranch, .condBranch⟩
  | .bltUnS => ⟨0x37, "blt.un.s", .shortBranch, .condBranch⟩
  | .br => ⟨0x38, "br", .branch, .branch⟩
  | .brfalse => ⟨0x39, "brfalse", .branch, .condBranch⟩
  | .brtrue => ⟨0x3A, "brtrue", .branch, .condBranch⟩
  | .beq => ⟨0x3B, "beq", .branch, .condBranch⟩
  | .bge => ⟨0x3C, "bge", .branch, .condBranch⟩
  | .bgt => ⟨0x3D, "bgt", .branch, .condBranch⟩
  | .ble => ⟨0x3E, "ble", .branch, .condBranch⟩
  | .blt => ⟨0x3F, "blt", .branch, .condBranch⟩
  | .bneUn => ⟨0x40, "bne.un", .branch, .condBranch⟩
  | .bgeUn => ⟨0x41, "bge.un", .branch, .condBranch⟩
  | .bgtUn => ⟨0x42, "bgt.un", .branch, .condBranch⟩
  | .bleUn => ⟨0x43, "ble.un", .branch, .condBranch⟩
  | .bltUn => ⟨0x44, "blt.un", .branch, .condBranch⟩
  | .switch => ⟨0x45, "switch", .switch, .condBranch⟩
  | .ldindI1 => ⟨0x46, "ldind.i1", .none, .next⟩
  | .ldindU1 => ⟨0x47, "ldind.u1", .none, .next⟩
  | .ldindI2 => ⟨0x48, "ldind.i2", .none, .next⟩
  | .ldindU2 => ⟨0x49, "ldind.u2", .none, .next⟩
  | .ldindI4 => ⟨0x4A, "ldind.i4", .none, .next⟩
  | .ldindU4 => ⟨0x4B, "ldind.u4", .none, .next⟩
  | .ldindI8 => ⟨0x4C, "ldind.i8", .none, .next⟩
  | .ldindI => ⟨0x4D, "ldind.i", .none, .next⟩
  | .ldindR4 => ⟨0x4E, "ldind.r4", .none, .next⟩
  | .ldindR8 => ⟨0x4F, "ldind.r8", .none, .next⟩
  | .ldindRef => ⟨0x50, "ldind.ref", .none, .next⟩
  | .stindRef => ⟨0x51, "stind.ref", .none, .next⟩
  | .stindI1 => ⟨0x52, "stind.i1", .none, .next⟩
  | .stindI2 => ⟨0x53, "stind.i2", .none, .next⟩
  | .stindI4 => ⟨0x54, "stind.i4", .none, .next⟩
  | .stindI8 => ⟨0x55, "stind.i8", .none, .next⟩
  | .stindR4 => ⟨0x56, "stind.r4", .none, .next⟩
  | .stindR8 => ⟨0x57, "stind.r8", .none, .next⟩
  | .add => ⟨0x58, "add", .none, .next⟩
  | .sub => ⟨0x59, "sub", .none, .next⟩
  | .mul => ⟨0x5A, "mul", .none, .next⟩
  | .div => ⟨0x5B, "div", .none, .next⟩
  | .divUn => ⟨0x5C, "div.un", .none, .next⟩
  | .rem => ⟨0x5D, "rem", .none, .next⟩
  | .remUn => ⟨0x5E, "rem.un", .none, .next⟩
  | .and => ⟨0x5F, "and", .none, .next⟩
  | .or => ⟨0x60, "or", .none, .next⟩
  | .xor => ⟨0x61, "xor", .none, .next⟩
  | .shl => ⟨0x62, "shl", .none, .next⟩
  | .shr => ⟨0x63, "shr", .none, .next⟩
  | .shrUn => ⟨0x64, "shr.un", .none, .next⟩
  | .neg => ⟨0x65, "neg", .none, .next⟩
  | .not => ⟨0x66, "not", .none, .next⟩
  | .convI1 => ⟨0x67, "conv.i1", .none, .next⟩
  | .convI2 => ⟨0x68, "conv.i2", .none, .next⟩
  | .convI4 => ⟨0x69, "conv.i4", .none, .next⟩
  | .convI8 => ⟨0x6A, "conv.i8", .none, .next⟩
  | .convR4 => ⟨0x6B, "conv.r4", .none, .next⟩
  | .convR8 => ⟨0x6C, "conv.r8", .none, .next⟩
  | .convU4 => ⟨0x6D, "conv.u4", .none, .next⟩
  | .convU8 => ⟨0x6E, "conv.u8", .none, .next⟩
  | .callvirt => ⟨0x6F, "callvirt", .method, .call⟩
  | .cpobj => ⟨0x70, "cpobj", .type, .next⟩
  | .ldobj => ⟨0x71, "ldobj", .type, .next⟩
  | .ldstr => ⟨0x72, "ldstr", .string, .next⟩
  | .newobj => ⟨0x73, "newobj", .method, .call⟩
  | .castclass => ⟨0x74, "castclass", .type, .next⟩
  | .isinst => ⟨0x75, "isinst", .type, .next⟩
  | .convRUn => ⟨0x76, "conv.r.un", .none, .next⟩
  | .unbox => ⟨0x79, "unbox", .type, .next⟩
  | .throw => ⟨0x7A, "throw", .none, .throw⟩
  | .ldfld => ⟨0x7B, "ldfld", .field, .next⟩
  | .ldflda => ⟨0x7C, "ldflda", .field, .next⟩
  | .stfld => ⟨0x7D, "stfld", .field, .next⟩
  | .ldsfld => ⟨0x7E, "ldsfld", .field, .next⟩
  | .ldsflda => ⟨0x7F, "ldsflda", .field, .next⟩
  | .stsfld => ⟨0x80, "stsfld", .field, .next⟩
  | .stobj => ⟨0x81, "stobj", .type, .next⟩
  | .convOvfI1Un => ⟨0x82, "conv.ovf.i1.un", .none, .next⟩
  | .convOvfI2Un => ⟨0x83, "conv.ovf.i2.un", .none, .next⟩
  | .convOvfI4Un => ⟨0x84, "conv.ovf.i4.un", .none, .next⟩
  | .convOvfI8Un => ⟨0x85, "conv.ovf.i8.un", .none, .next⟩
  | .convOvfU1Un => ⟨0x86, "conv.ovf.u1.un", .none, .next⟩
  | .convOvfU2Un => ⟨0x87, "conv.ovf.u2.un", .none, .next⟩
  | .convOvfU4Un => ⟨0x88, "conv.ovf.u4.un", .none, .next⟩
  | .convOvfU8Un => ⟨0x89, "conv.ovf.u8.un", .none, .next⟩
  | .convOvfIUn => ⟨0x8A, "conv.ovf.i.un", .none, .next⟩
  | .convOvfUUn => ⟨0x8B, "conv.ovf.u.un", .none, .next⟩
  | .box => ⟨0x8C, "box", .type, .next⟩
  | .newarr => ⟨0x8D, "newarr", .type, .next⟩
  | .ldlen => ⟨0x8E, "ldlen", .none, .next⟩
  | .ldelema => ⟨0x8F, "ldelema", .type, .next⟩
  | .ldelemI1 => ⟨0x90, "ldelem.i1", .none, .next⟩
  | .ldelemU1 => ⟨0x91, "ldelem.u1", .none, .next⟩
  | .ldelemI2 => ⟨0x92, "ldelem.i2", .none, .next⟩
  | .ldelemU2 => ⟨0x93, "ldelem.u2", .none, .next⟩
  | .ldelemI4 => ⟨0x94, "ldelem.i4", .none, .next⟩
  | .ldelemU4 => ⟨0x95, "ldelem.u4", .none, .next⟩
  | .ldelemI8 => ⟨0x96, "ldelem.i8", .none, .next⟩
  | .ldelemI => ⟨0x97, "ldelem.i", .none, .next⟩
  | .ldelemR4 => ⟨0x98, "ldelem.r4", .none, .next⟩
  | .ldelemR8 => ⟨0x99, "ldelem.r8", .none, .next⟩
  | .ldelemRef => ⟨0x9A, "ldelem.ref", .none, .next⟩
  | .stelemI => ⟨0x9B, "stelem.i", .none, .next⟩
  | .stelemI1 => ⟨0x9C, "stelem.i1", .none, .next⟩
  | .stelemI2 => ⟨0x9D, "stelem.i2", .none, .next⟩
  | .stelemI4 => ⟨0x9E, "stelem.i4", .none, .next⟩
  | .stelemI8 => ⟨0x9F, "stelem.i8", .none, .next⟩
  | .stelemR4 => ⟨0xA0, "stelem.r4", .none, .next⟩
  | .stelemR8 => ⟨0xA1, "stelem.r8", .none, .next⟩
  | .stelemRef => ⟨0xA2, "stelem.ref", .none, .next⟩
  | .ldelem => ⟨0xA3, "ldelem", .type, .next⟩
  | .stelem => ⟨0xA4, "stelem", .type, .next⟩
  | .unboxAny => ⟨0xA5, "unbox.any", .type, .next⟩
  | .convOvfI1 => ⟨0xB3, "conv.ovf.i1", .none, .next⟩
  | .convOvfU1 => ⟨0xB4, "conv.ovf.u1", .none, .next⟩
  | .convOvfI2 => ⟨0xB5, "conv.ovf.i2", .none, .next⟩
  | .convOvfU2 => ⟨0xB6, "conv.ovf.u2", .none, .next⟩
  | .convOvfI4 => ⟨0xB7, "conv.ovf.i4", .none, .next⟩
  | .convOvfU4 => ⟨0xB8, "conv.ovf.u4", .none, .next⟩
  | .convOvfI8 => ⟨0xB9, "conv.ovf.i8", .none, .next⟩
  | .convOvfU8 => ⟨0xBA, "conv.ovf.u8", .none, .next⟩
  | .refanyval => ⟨0xC2, "refanyval", .type, .next⟩
  | .ckfinite => ⟨0xC3, "ckfinite", .none, .next⟩
  | .mkrefany => ⟨0xC6, "mkrefany", .type, .next⟩
  | .ldtoken => ⟨0xD0, "ldtoken", .token, .next⟩
  | .convU2 => ⟨0xD1, "conv.u2", .none, .next⟩
  | .convU1 => ⟨0xD2, "conv.u1", .none, .next⟩
  | .convI => ⟨0xD3, "conv.i", .none, .next⟩
  | .convOvfI => ⟨0xD4, "conv.ovf.i", .none, .next⟩
  | .convOvfU => ⟨0xD5, "conv.ovf.u", .none, .next⟩
  | .addOvf => ⟨0xD6, "add.ovf", .none, .next⟩
  | .addOvfUn => ⟨0xD7, "add.ovf.un", .none, .next⟩
  | .mulOvf => ⟨0xD8, "mul.ovf", .none, .next⟩
  | .mulOvfUn => ⟨0xD9, "mul.ovf.un", .none, .next⟩
  | .subOvf => ⟨0xDA, "sub.ovf", .none, .next⟩
  | .subOvfUn => ⟨0xDB, "sub.ovf.un", .none, .next⟩
  | .endfinally => ⟨0xDC, "endfinally", .none, .ret⟩
  | .leave => ⟨0xDD, "leave", .branch, .branch⟩
  | .leaveS => ⟨0xDE, "leave.s", .shortBranch, .branch⟩
  | .stindI => ⟨0xDF, "stind.i", .none, .next⟩
  | .convU => ⟨0xE0, "conv.u", .none, .next⟩
  | .arglist => ⟨0xFE00, "arglist", .none, .next⟩
  | .ceq => ⟨0xFE01, "ceq", .none, .next⟩
  | .cgt => ⟨0xFE02, "cgt", .none, .next⟩
  | .cgtUn => ⟨0xFE03, "cgt.un", .none, .next⟩
  | .clt => ⟨0xFE04, "clt", .none, .next⟩
  | .cltUn => ⟨0xFE05, "clt.un", .none, .next⟩
  | .ldftn => ⟨0xFE06, "ldftn", .method, .next⟩
  | .ldvirtftn => ⟨0xFE07, "ldvirtftn", .method, .next⟩
  | .ldarg => ⟨0xFE09, "ldarg", .var, .next⟩
  | .ldarga => ⟨0xFE0A, "ldarga", .var, .next⟩
  | .starg => ⟨0xFE0B, "starg", .var, .next⟩
  | .ldloc => ⟨0xFE0C, "ldloc", .var, .next⟩
  | .ldloca => ⟨0xFE0D, "ldloca", .var, .next⟩
  | .stloc => ⟨0xFE0E, "stloc", .var, .next⟩
  | .localloc => ⟨0xFE0F, "localloc", .none, .next⟩
  | .endfilter => ⟨0xFE11, "endfilter", .none, .ret⟩
  | .unaligned => ⟨0xFE12, "unaligned.", .byte, .modifier⟩
  | .volatile => ⟨0xFE13, "volatile.", .none, .modifier⟩
  | .tail => ⟨0xFE14, "tail.", .none, .modifier⟩
  | .initobj => ⟨0xFE15, "initobj", .type, .next⟩
  | .constrained => ⟨0xFE16, "constrained.", .type, .modifier⟩
  | .cpblk => ⟨0xFE17, "cpblk", .none, .next⟩
  | .initblk => ⟨0xFE18, "initblk", .none, .next⟩
  | .no => ⟨0xFE19, "no.", .byte, .modifier⟩
  | .rethrow => ⟨0xFE1A, "rethrow", .none, .throw⟩
  | .sizeof => ⟨0xFE1C, "sizeof", .type, .next⟩
  | .refanytype => ⟨0xFE1D, "refanytype", .none, .next⟩
  | .readonly => ⟨0xFE1E, "readonly.", .none, .modifier⟩

def Opcode.all : List Opcode := [
  .nop, .breakpoint, .ldarg0, .ldarg1, .ldarg2, .ldarg3, .ldloc0, .ldloc1, .ldloc2, .ldloc3,
  .stloc0, .stloc1, .stloc2, .stloc3, .ldargS, .ldargaS, .stargS, .ldlocS, .ldlocaS, .stlocS,
  .ldnull, .ldcI4M1, .ldcI40, .ldcI41, .ldcI42, .ldcI43, .ldcI44, .ldcI45, .ldcI46, .ldcI47,
  .ldcI48, .ldcI4S, .ldcI4, .ldcI8, .ldcR4, .ldcR8, .dup, .pop, .jmp, .call, .calli, .ret, .brS,
  .brfalseS, .brtrueS, .beqS, .bgeS, .bgtS, .bleS, .bltS, .bneUnS, .bgeUnS, .bgtUnS, .bleUnS,
  .bltUnS, .br, .brfalse, .brtrue, .beq, .bge, .bgt, .ble, .blt, .bneUn, .bgeUn, .bgtUn, .bleUn,
  .bltUn, .switch, .ldindI1, .ldindU1, .ldindI2, .ldindU2, .ldindI4, .ldindU4, .ldindI8, .ldindI,
  .ldindR4, .ldindR8, .ldindRef, .stindRef, .stindI1, .stindI2, .stindI4, .stindI8, .stindR4,
  .stindR8, .add, .sub, .mul, .div, .divUn, .rem, .remUn, .and, .or, .xor, .shl, .shr, .shrUn,
  .neg, .not, .convI1, .convI2, .convI4, .convI8, .convR4, .convR8, .convU4, .convU8, .callvirt,
  .cpobj, .ldobj, .ldstr, .newobj, .castclass, .isinst, .convRUn, .unbox, .throw, .ldfld,
  .ldflda, .stfld, .ldsfld, .ldsflda, .stsfld, .stobj, .convOvfI1Un, .convOvfI2Un, .convOvfI4Un,
  .convOvfI8Un, .convOvfU1Un, .convOvfU2Un, .convOvfU4Un, .convOvfU8Un, .convOvfIUn, .convOvfUUn,
  .box, .newarr, .ldlen, .ldelema, .ldelemI1, .ldelemU1, .ldelemI2, .ldelemU2, .ldelemI4,
  .ldelemU4, .ldelemI8, .ldelemI, .ldelemR4, .ldelemR8, .ldelemRef, .stelemI, .stelemI1,
  .stelemI2, .stelemI4, .stelemI8, .stelemR4, .stelemR8, .stelemRef, .ldelem, .stelem, .unboxAny,
  .convOvfI1, .convOvfU1, .convOvfI2, .convOvfU2, .convOvfI4, .convOvfU4, .convOvfI8, .convOvfU8,
  .refanyval, .ckfinite, .mkrefany, .ldtoken, .convU2, .convU1, .convI, .convOvfI, .convOvfU,
  .addOvf, .addOvfUn, .mulOvf, .mulOvfUn, .subOvf, .subOvfUn, .endfinally, .leave, .leaveS,
  .stindI, .convU, .arglist, .ceq, .cgt, .cgtUn, .clt, .cltUn, .ldftn, .ldvirtftn, .ldarg,
  .ldarga, .starg, .ldloc, .ldloca, .stloc, .localloc, .endfilter, .unaligned, .volatile, .tail,
  .initobj, .constrained, .cpblk, .initblk, .no, .rethrow, .sizeof, .refanytype, .readonly]

namespace Opcode

/-- encoding as a number; two-byte opcodes start at `0xFE00` -/
def encoding (op : Opcode) : Nat := op.entry.encoding

def mnemonic (op : Opcode) : String := op.entry.mnemonic

def operand (op : Opcode) : OperandKind := op.entry.operand

def flow (op : Opcode) : Flow := op.entry.flow

def size (op : Opcode) : Nat := if 0xFF < op.encoding then 2 else 1

end Opcode

end ProgramScan
