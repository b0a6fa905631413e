import ProgramScan.Instruction.Decode
import ProgramScan.Proofs.Opcode.Encoding

/-!
# Segments of code

A segment is an opcode followed by operand bytes of the width that the opcode asks for; a jump table
says its own width.  A byte string can be cut into segments in at most one way
(`Segment.join_inj`).

* `Segment.targets`   where the displacements of a segment lead, counted from its end;
* `Segment.value`     the operand of a segment, unless it is given by a token;
* `Segment.Denotes`   the operand of a segment, tokens included;
* `Operands`          the operands of segments in order.
-/

namespace ProgramScan

def OperandKind.Fits (kind : OperandKind) (bytes : List UInt8) : Prop :=
  match kind.size? with
  | some width => bytes.length = width
  | Option.none => ∃ count table, bytes = count ++ table ∧ count.length = 4 ∧
      table.length = 4 * littleEndian count

def OperandKind.isToken : OperandKind → Bool
  | .method | .field | .type | .token | .string | .signature => true
  | _ => false

/-- A piece of code: an opcode and its operand bytes. -/
@[ext]
structure Segment where
  opcode : Opcode
  operand : List UInt8
  fits : opcode.operand.Fits operand

def words : List UInt8 → List (List UInt8)
  | a :: b :: c :: d :: rest => [a, b, c, d] :: words rest
  | _ => []

/-- the signed number that bytes denote in two's complement, lowest byte first -/
def twosComplement (bytes : List UInt8) : Int :=
  (BitVec.ofNat (8 * bytes.length) (littleEndian bytes)).toInt

/-- the signed numbers of four bytes in a table -/
def tableNumbers (table : List UInt8) : List Int := (words table).map twosComplement

namespace Segment

def bytes (s : Segment) : List UInt8 := s.opcode.bytes ++ s.operand

def size (s : Segment) : Nat := s.bytes.length

def displacements (s : Segment) : List Int :=
  match s.opcode.operand with
  | .shortBranch => [twosComplement s.operand]
  | .branch => [twosComplement s.operand]
  | .switch => tableNumbers (s.operand.drop 4)
  | _ => []

def targets (s : Segment) (stop : Nat) : List Int := s.displacements.map fun d => (stop : Int) + d

def token (s : Segment) : Token := ⟨UInt32.ofNat (littleEndian s.operand)⟩

/-- the operand of a segment that ends at `stop`, unless a token gives it -/
def value (s : Segment) (stop : Nat) : Operand :=
  match s.opcode.operand with
  | .none => implicitOperand s.opcode
  | .shortInt => .int (twosComplement s.operand)
  | .int => .int (twosComplement s.operand)
  | .int64 => .int64 (twosComplement s.operand)
  | .byte => .byte (littleEndian s.operand)
  | .shortFloat => .single (littleEndian s.operand)
  | .float => .double (littleEndian s.operand)
  | .shortVar | .var => .var (littleEndian s.operand)
  | .shortBranch => .branch (stop + twosComplement s.operand).toNat
  | .branch => .branch (stop + twosComplement s.operand).toNat
  | .switch => .switch ((s.targets stop).map Int.toNat)
  | _ => .none

def join (segments : List Segment) : List UInt8 := segments.flatMap bytes

/-- all targets of segments from `start` on are offsets of a body of `length` bytes -/
def Inside (length : Nat) : Nat → List Segment → Prop
  | _, [] => True
  | start, s :: rest =>
    (∀ target ∈ s.targets (start + s.size), 0 ≤ target ∧ target < length) ∧
      Inside length (start + s.size) rest

end Segment

/-- The operand of a segment that ends at `stop`, read in `r`; resolving a token can make instances. -/
inductive Segment.Denotes (ctx : DecodeContext) (s : Segment) (stop : Nat) :
    Registry → Operand → Registry → Prop
  | plain {r : Registry} (hs : s.opcode.operand.isToken = false) :
    Denotes ctx s stop r (s.value stop) r
  | token {r r' : Registry} {found : Resolved} {operand : Operand}
    (hs : s.opcode.operand.isToken = true)
    (hfound : Registry.resolveToken ctx.module s.token ctx.generic r = .ok found r')
    (hoperand : operandOf? s.opcode.operand found = some operand) :
    Denotes ctx s stop r operand r'

/-- The operands of segments from `start` on, in order: a token is resolved in the program as the
tokens before it leave it. -/
inductive Operands (ctx : DecodeContext) : Nat → List Segment → Registry → List Operand → Registry →
    Prop
  | nil {start : Nat} {r : Registry} : Operands ctx start [] r [] r
  | cons {start : Nat} {s : Segment} {segments : List Segment} {r r' r'' : Registry}
    {operand : Operand} {operands : List Operand}
    (hfirst : s.Denotes ctx (start + s.size) r operand r')
    (hrest : Operands ctx (start + s.size) segments r' operands r'') :
    Operands ctx start (s :: segments) r (operand :: operands) r''

/-- the instructions of segments from `start` on, without stack effects -/
def Segment.instructions (regions : List Region) : Nat → List Segment → List Operand →
    List Instruction
  | start, s :: segments, operand :: operands =>
    { Instruction.ofEncoded s.opcode start (start + s.size) operand with
      region := enclosingRegion regions start } ::
      instructions regions (start + s.size) segments operands
  | _, _, _ => []

theorem signedOf_littleEndian (bytes : List UInt8) :
    signedOf bytes.length (littleEndian bytes) = twosComplement bytes := by
  have hpow : Nat.pow 256 bytes.length = 2 ^ (8 * bytes.length) := by
    rw [Nat.pow_mul]
    rfl
  rw [signedOf, twosComplement, BitVec.toInt_ofNat', hpow]

/-! ## one way to cut -/

theorem OperandKind.fits_iff_length {kind : OperandKind} {width : Nat}
    (hw : kind.size? = some width) {bytes : List UInt8} :
    kind.Fits bytes ↔ bytes.length = width := by
  simp only [Fits, hw]

theorem OperandKind.fits_nil : OperandKind.none.Fits [] := rfl

theorem OperandKind.Fits.append_inj {kind : OperandKind} {bytes bytes' tail tail' : List UInt8}
    (h : kind.Fits bytes) (h' : kind.Fits bytes') (heq : bytes ++ tail = bytes' ++ tail') :
    bytes = bytes' ∧ tail = tail' := by
  cases hsize : kind.size? with
  | some width =>
    simp only [Fits, hsize] at h h'
    exact List.append_inj heq (h.trans h'.symm)
  | none =>
    simp only [Fits, hsize] at h h'
    obtain ⟨count, table, rfl, hcount, htable⟩ := h
    obtain ⟨count', table', rfl, hcount', htable'⟩ := h'
    rw [List.append_assoc, List.append_assoc] at heq
    obtain ⟨rfl, hrest⟩ := List.append_inj heq (hcount.trans hcount'.symm)
    obtain ⟨rfl, htail⟩ := List.append_inj hrest (htable.trans htable'.symm)
    exact ⟨rfl, htail⟩

theorem words_append {word : List UInt8} (h : word.length = 4) (rest : List UInt8) :
    words (word ++ rest) = word :: words rest := by
  match word, h with
  | [a, b, c, d], _ => rfl

namespace Segment

theorem bytes_append_inj {s s' : Segment} {tail tail' : List UInt8}
    (h : s.bytes ++ tail = s'.bytes ++ tail') : s = s' ∧ tail = tail' := by
  obtain ⟨op, operand, hf⟩ := s
  obtain ⟨op', operand', hf'⟩ := s'
  simp only [bytes, List.append_assoc] at h
  obtain ⟨rfl, hrest⟩ := Opcode.bytes_append_inj h
  obtain ⟨rfl, htail⟩ := hf.append_inj hf' hrest
  exact ⟨rfl, htail⟩

theorem size_pos (s : Segment) : 0 < s.size := by
  have := List.length_pos_iff.mpr s.opcode.bytes_ne_nil
  rw [size, bytes, List.length_append]
  omega

@[simp] theorem join_nil : join [] = [] := rfl

@[simp] theorem join_cons (s : Segment) (segments : List Segment) :
    join (s :: segments) = s.bytes ++ join segments := rfl

/-- **A byte string is cut in at most one way.** -/
theorem join_inj {segments segments' : List Segment} (h : join segments = join segments') :
    segments = segments' := by
  induction segments generalizing segments' with
  | nil =>
    cases segments' with
    | nil => rfl
    | cons s rest =>
      have hlen := congrArg List.length h
      rw [join_cons, List.length_append, join_nil, List.length_nil] at hlen
      have := s.size_pos
      rw [size] at this
      omega
  | cons s rest ih =>
    cases segments' with
    | nil =>
      have hlen := congrArg List.length h
      rw [join_cons, List.length_append, join_nil, List.length_nil] at hlen
      have := s.size_pos
      rw [size] at this
      omega
    | cons s' rest' =>
      obtain ⟨rfl, hrest⟩ := bytes_append_inj h
      rw [ih hrest]

end Segment

end ProgramScan
