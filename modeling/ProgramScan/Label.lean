import ProgramScan.Digest.Md5
import ProgramScan.Registry.Names

/-!
# Labels

Rendered names turned into names that an assembler accepts.

* `identifier`    every illegal character becomes an underscore;
* `finalLabel`    brackets, compiler marks, pointers and bars are spelled out, the other illegal
                  characters are dropped, and a long label is cut and ends in the digest of the whole;
* `offsetLabel`   the label of an instruction of a method;
* `LabelCache`    the labels that were handed out, by identity key.
-/

namespace ProgramScan

def illegalInIdentifier : List Char := "&.,+$<>\x7b\x7d-`'/\\ ()[]*!=".toList

def illegalInLabel : List Char := "&.,+$<>\x7b\x7d-`'/\\ ()*!=".toList

/-- `name` with an underscore for every illegal character -/
def identifier (name : String) : String :=
  String.ofList (name.toList.map fun c => if illegalInIdentifier.contains c then '_' else c)

def maxLabelLength : Nat := 200

/-- the replacements that spell out parts of a name, in this order -/
def spellings : List (String × String) :=
  [("[]", "array"), ("<>", "compilergenerated"), ("[,]", "array"), ("*", "pointer"), ("|", "sLine")]

/-- `name` with all spellings applied and illegal characters dropped -/
def spelledOut (name : List Char) : List Char :=
  (spellings.foldl (fun text s => Text.replaceAll s.1.toList s.2.toList text) name).filter
    fun c => !illegalInLabel.contains c

def digestText (text : List Char) : List Char :=
  (Md5.digest (String.ofList text).toUTF8.toList).flatMap fun b => (Text.hexUpper 2 b.toNat).toList

def finalLabel (name : String) : String :=
  let text := spelledOut name.toList
  if text.length ≤ maxLabelLength then String.ofList text
  else String.ofList (text.take (maxLabelLength - 32) ++ digestText text)

def offsetLabel (methodLabel : String) (offset : Nat) : String :=
  methodLabel ++ ".IL_" ++ Text.hexUpper 4 offset

def Registry.staticFieldName (r : Registry) (f : FieldId) : String :=
  identifier ("static_field__" ++ r.fullName (r.field f).declaring ++ "." ++ (r.field f).name)

/-- Labels handed out so far, by identity key of the method. -/
structure LabelCache where
  labels : Table String String := ∅

namespace LabelCache

def generated (c : LabelCache) : Nat := c.labels.size

/-- the label of a method, made on the first request -/
def methodLabel (c : LabelCache) (r : Registry) (m : MethodId) : String × LabelCache :=
  let key := r.methodKey m
  match c.labels.get? key with
  | some label => (label, c)
  | none =>
    let label := finalLabel (r.methodName m)
    (label, { labels := c.labels.insert key label })

/-- the label that is handed out is kept, and so are the others -/
theorem get?_methodLabel (c : LabelCache) (r : Registry) (m : MethodId) :
    (c.methodLabel r m).2.labels.get? (r.methodKey m) = some (c.methodLabel r m).1 ∧
      ∀ key label, c.labels.get? key = some label →
        (c.methodLabel r m).2.labels.get? key = some label := by
  simp only [methodLabel]
  cases hk : c.labels.get? (r.methodKey m) with
  | some label => exact ⟨hk, fun _ _ h => h⟩
  | none =>
    dsimp only
    refine ⟨Table.get?_insert_self _ _ _, fun key label h => ?_⟩
    have hne : key ≠ r.methodKey m := by
      rintro rfl
      rw [hk] at h
      cases h
    rw [Table.get?_insert_of_ne _ _ hne, h]

end LabelCache

end ProgramScan
