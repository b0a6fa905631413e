import Mathlib.Logic.Function.Basic
import ProgramScan.Proofs.Text.Brackets
import ProgramScan.Proofs.Text.Squares

/-!
# Text read as bytes

Whether the names of a program can be told apart, or are made of certain characters only, is decided
by computation.  Comparing texts pairwise and taking texts apart into characters is slow, so both are
done through the bytes of a text:

* `code s`         the bytes of `s` as one number, which determines `s` (`code_injective`);
* `characters s`   the characters of `s`, as bytes where these are characters (`characters_eq`).
-/

namespace ProgramScan.Text

def bytes (s : String) : List UInt8 := s.toByteArray.data.toList

/-- bytes as the digits of a number, lowest first, with a last digit 1 -/
def number (bs : List UInt8) : Nat := bs.foldr (fun b n => b.toNat + 256 * n) 1

/-- the bytes of a text as a number -/
def code (s : String) : Nat := number (bytes s)

theorem number_pos (bs : List UInt8) : 0 < number bs := by
  induction bs with
  | nil => decide
  | cons b bs ih =>
    show 0 < b.toNat + 256 * number bs
    omega

theorem number_injective : Function.Injective number := by
  intro bs
  induction bs with
  | nil =>
    intro cs h
    cases cs with
    | nil => rfl
    | cons c cs =>
      have hpos := number_pos cs
      have h : 1 = c.toNat + 256 * number cs := h
      omega
  | cons b bs ih =>
    intro cs h
    cases cs with
    | nil =>
      have hpos := number_pos bs
      have h : b.toNat + 256 * number bs = 1 := h
      omega
    | cons c cs =>
      have h : b.toNat + 256 * number bs = c.toNat + 256 * number cs := h
      have hb := b.toNat_lt
      have hc := c.toNat_lt
      obtain rfl : b = c := UInt8.toNat_inj.mp (by omega)
      rw [ih (show number bs = number cs by omega)]

theorem code_injective : Function.Injective code := by
  intro s t h
  have hbytes : bytes s = bytes t := number_injective h
  exact String.toByteArray_inj.mp (ByteArray.ext (Array.toList_inj.mp hbytes))

/-- The characters of a text.  Its bytes are read as characters; if writing them again does not give the
text back, it is taken apart as it should be. -/
def characters (s : String) : List Char :=
  let cs := (bytes s).map fun b => Char.ofNat b.toNat
  if code (String.ofList cs) = code s then cs else s.toList

theorem characters_eq (s : String) : characters s = s.toList := by
  unfold characters
  dsimp only
  split
  · rename_i h
    conv => rhs; rw [← code_injective h]
    exact String.toList_ofList.symm
  · rfl

instance decidableMemToList (c : Char) (s : String) : Decidable (c ∈ s.toList) :=
  decidable_of_iff (c ∈ characters s) (by rw [characters_eq])

instance decidableClosedToList (s : String) : Decidable (Closed s.toList) :=
  decidable_of_iff (Closed (characters s)) (by rw [characters_eq])

instance decidableInnerToList (s : String) : Decidable (Inner s.toList) :=
  decidable_of_iff (Inner (characters s)) (by rw [characters_eq])

instance decidableUnbracketedToList (s : String) : Decidable (Unbracketed s.toList) :=
  decidable_of_iff (Unbracketed (characters s)) (by rw [characters_eq])

end ProgramScan.Text
