import ProgramScan.Text.Hex

/-!
# Metadata tokens

A token is a 32-bit number: the high byte names a metadata table, the low 24 bits a row of it.
Tokens only mean something relative to the module whose code uses them.
-/

namespace ProgramScan

structure Token where
  value : UInt32
  deriving DecidableEq, Inhabited

namespace Token

/-- the token of `row` in `table`; only the low 24 bits of the row are kept -/
def ofParts (table : UInt8) (row : Nat) : Token :=
  ⟨UInt32.ofNat (table.toNat * 0x1000000 + row % 0x1000000)⟩

def table (t : Token) : Nat := t.value.toNat / 0x1000000

def row (t : Token) : Nat := t.value.toNat % 0x1000000

/-- the four bytes of a token in code, lowest byte first -/
def bytes (t : Token) : List UInt8 :=
  [t.value.toUInt8, (t.value >>> 8).toUInt8, (t.value >>> 16).toUInt8, (t.value >>> 24).toUInt8]

/-- row 0 is no row -/
def isNull (t : Token) : Bool := t.row == 0

/-- true for the tables that hold types only -/
def isType (t : Token) : Bool := t.table == 0x01 || t.table == 0x02 || t.table == 0x1B

/-- true for the user string heap -/
def isString (t : Token) : Bool := t.table == 0x70

/-- the numeral that messages use -/
def display (t : Token) : String := "0x" ++ Text.hexLower 8 t.value.toNat

/-- the numeral together with its parts -/
def describe (t : Token) : String :=
  "Token(" ++ t.display ++ ", table: 0x" ++ Text.hexLower 2 t.table ++ ", row: " ++
    toString t.row ++ ")"

def typeDefTable : UInt8 := 0x02
def fieldTable : UInt8 := 0x04
def methodDefTable : UInt8 := 0x06
def memberRefTable : UInt8 := 0x0A
def signatureTable : UInt8 := 0x11
/-- metadata table of constructed and instantiated types -/
def typeSpecTable : UInt8 := 0x1B
def userStringTable : UInt8 := 0x70

theorem value_ofParts (table : UInt8) (row : Nat) :
    (ofParts table row).value.toNat = table.toNat * 0x1000000 + row % 0x1000000 := by
  have := table.toNat_lt
  simp only [ofParts, UInt32.toNat_ofNat']
  omega

@[simp] theorem table_ofParts (table : UInt8) (row : Nat) :
    (ofParts table row).table = table.toNat := by
  rw [Token.table, value_ofParts]; omega

@[simp] theorem row_ofParts (table : UInt8) (row : Nat) :
    (ofParts table row).row = row % 0x1000000 := by
  rw [Token.row, value_ofParts]; omega

end Token

end ProgramScan
