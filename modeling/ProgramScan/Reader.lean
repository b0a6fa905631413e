import ProgramScan.Error

/-!
# Reading little-endian numbers

A `Reader` stands at a position of a byte string and knows the bytes that are left.  Every read
either takes exactly its width or fails with `Error.outOfBounds` and moves nothing.

* `takeExactly`     the first `n` elements of a list and the rest, if there are that many;
* `littleEndian`    the number that bytes denote, lowest byte first;
* `signedOf`        the two's complement reading of a number.
-/

namespace ProgramScan

/-- the first `n` elements and the rest, if there are `n` -/
def takeExactly {α : Type} : Nat → List α → Option (List α × List α)
  | 0, l => some ([], l)
  | _ + 1, [] => none
  | n + 1, a :: l => (takeExactly n l).map fun p => (a :: p.1, p.2)

/-- the number that bytes denote, lowest byte first -/
def littleEndian : List UInt8 → Nat
  | [] => 0
  | b :: rest => b.toNat + 256 * littleEndian rest

/-- the two's complement reading of a number of `bytes` bytes -/
def signedOf (bytes n : Nat) : Int := Int.bmod n (Nat.pow 256 bytes)

theorem takeExactly_eq_some {α : Type} {n : Nat} {l front back : List α} :
    takeExactly n l = some (front, back) ↔ l = front ++ back ∧ front.length = n := by
  induction n generalizing l front with
  | zero =>
    simp only [takeExactly, Option.some.injEq, Prod.mk.injEq, List.length_eq_zero_iff]
    constructor
    · rintro ⟨rfl, rfl⟩; simp
    · rintro ⟨rfl, rfl⟩; simp
  | succ n ih =>
    cases l with
    | nil =>
      simp only [takeExactly, reduceCtorEq, false_iff, not_and]
      intro h
      have : front = [] := (List.append_eq_nil_iff.mp h.symm).1
      simp [this]
    | cons a l =>
      simp only [takeExactly, Option.map_eq_some_iff, Prod.exists, Prod.mk.injEq]
      constructor
      · rintro ⟨u, v, h, rfl, rfl⟩
        obtain ⟨rfl, hl⟩ := ih.mp h
        exact ⟨rfl, by simp [hl]⟩
      · rintro ⟨h, hl⟩
        cases front with
        | nil => simp at hl
        | cons b front =>
          simp only [List.cons_append, List.cons.injEq] at h
          obtain ⟨rfl, rfl⟩ := h
          exact ⟨front, back, ih.mpr ⟨rfl, by simpa using hl⟩, rfl, rfl⟩

/-- A position in a byte string and the bytes from there on. -/
structure Reader where
  position : Nat := 0
  rest : List UInt8

namespace Reader

def ofBytes (bytes : List UInt8) : Reader := { rest := bytes }

def size (rd : Reader) : Nat := rd.position + rd.rest.length

def remaining (rd : Reader) : Nat := rd.rest.length

def hasMore (rd : Reader) : Bool := !rd.rest.isEmpty

def take (width : Nat) (rd : Reader) : Except Error (List UInt8 × Reader) :=
  match takeExactly width rd.rest with
  | some (bytes, rest) => .ok (bytes, ⟨rd.position + width, rest⟩)
  | none => .error .outOfBounds

def unsigned (width : Nat) (rd : Reader) : Except Error (Nat × Reader) :=
  (rd.take width).map fun (bytes, next) => (littleEndian bytes, next)

def signed (width : Nat) (rd : Reader) : Except Error (Int × Reader) :=
  (rd.unsigned width).map fun (n, next) => (signedOf width n, next)

end Reader

/-- the unsigned number of `width` bytes at `offset`, and the offset after it -/
def readAt (bytes : List UInt8) (offset width : Nat) : Except Error (Nat × Nat) :=
  (Reader.unsigned width ⟨offset, bytes.drop offset⟩).map fun (n, next) => (n, next.position)

end ProgramScan
