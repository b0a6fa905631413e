import ProgramScan.Diagnostic
import ProgramScan.Plug.Index
import ProgramScan.Registry.Hierarchy
import ProgramScan.Sorting
import ProgramScan.Text.Search

/-!
# Checking plug types

Every public static method of a plug type should stand for some member of the target.  Methods that
do not are reported and kept.

* `compareFrom`           compares parameters with those of an instance member, from an `Alignment` on;
* `matchesTargetMember`   a plug method stands for a member of the target;
* `FieldPlugs`            replaced fields by target;
* `checkPlugs`            reports and replaced fields of an index.
-/

namespace ProgramScan

/-- Replaced fields, by identity key of the target. -/
structure FieldPlugs where
  byTarget : Table String (List FieldPlug) := ∅

namespace FieldPlugs

/-- the replaced fields of a target, in the order of their ids -/
def ofTarget (plugs : FieldPlugs) (r : Registry) (target : TypeId) : List FieldPlug :=
  sortBy (fun a b => decide (a.fieldId ≤ b.fieldId))
    ((plugs.byTarget.get? (r.typeKey target)).getD [])

def get? (plugs : FieldPlugs) (r : Registry) (target : TypeId) (fieldId : String) :
    Option FieldPlug :=
  ((plugs.byTarget.get? (r.typeKey target)).getD []).find? fun p => p.fieldId == fieldId

def size (plugs : FieldPlugs) : Nat :=
  plugs.byTarget.entries.foldl (fun n row => n + row.2.length) 0

/-- adds a replacement; a field of a target can be replaced once -/
def insert (plugs : FieldPlugs) (r : Registry) (target : TypeId) (plug : FieldPlug) :
    Except Error FieldPlugs :=
  if (plugs.get? r target plug.fieldId).isSome then
    .error (.duplicatePlugField (r.fullName target) plug.fieldId)
  else
    let key := r.typeKey target
    .ok ⟨plugs.byTarget.insert key ((plugs.byTarget.get? key).getD [] ++ [plug])⟩

end FieldPlugs

/-- How the parameters of a plug method lie beside those of an instance member while they are compared:
the parameter of the member that is next, and how many parameters of the plug are ahead. -/
structure Alignment where
  offset : Nat := 0
  place : Nat := 0

/-- bound on the rounds of a comparison with `count` parameters, before the one that decides -/
def Alignment.roundsLeft (a : Alignment) (count : Nat) : Nat :=
  (1 - a.offset) * count + (count - a.place)

namespace Registry

/-- The type that a parameter is compared by: the element of a reference, nothing for a pointer,
which stands for anything. -/
def comparableShape (r : Registry) (t : TypeId) : Option TypeId :=
  match (r.type t).form with
  | .constructed .byRef element => some element
  | .constructed .pointer _ => none
  | _ => some t

def comparableShapes (r : Registry) (m : MethodId) : List (Option TypeId) :=
  (r.method m).paramTypes.map r.comparableShape

/-- a plug parameter fits a parameter of the target -/
def shapeFits (r : Registry) (plug candidate : Option TypeId) : Bool :=
  match plug, candidate with
  | none, _ => true
  | some p, some c => r.sameType p c
  | some _, none => false

/-- parameters fit position by position, as far as both lists go -/
def shapesFit (r : Registry) : (plug candidate : List (Option TypeId)) → Bool
  | p :: ps, c :: cs => r.shapeFits p c && r.shapesFit ps cs
  | _, _ => true

def shapesFitUses (r : Registry) (plug candidate : List (Option TypeId)) : List TypeId :=
  usesThrough (fun (p, c) => !r.shapeFits p c) (fun (p, c) => sameKnownUses p c) (plug.zip candidate)

/-- One round of a comparison: the alignment to go on with, or the outcome.  Parameters that do not fit
start the comparison again one plug parameter further, and end it if that was done before. -/
def compareRound (r : Registry) (candidate plug : List (Option TypeId)) (a : Alignment) :
    Alignment ⊕ Bool :=
  match candidate[a.place]?, plug[a.place + a.offset]? with
  | some c, some p =>
    if r.shapeFits p c then .inl { a with place := a.place + 1 }
    else if a.offset = 0 then .inl { offset := 1, place := 0 }
    else .inr false
  | _, _ => .inr true

theorem roundsLeft_lt {r : Registry} {candidate plug : List (Option TypeId)} {a next : Alignment}
    (h : r.compareRound candidate plug a = .inl next) :
    next.roundsLeft candidate.length < a.roundsLeft candidate.length := by
  unfold compareRound at h
  split at h
  · rename_i c p hc hp
    have hplace : a.place < candidate.length := (List.getElem?_eq_some_iff.mp hc).1
    split at h
    · cases h
      exact Nat.add_lt_add_left (Nat.sub_succ_lt_self _ _ hplace) _
    · split at h
      · rename_i hoffset
        cases h
        simp only [Alignment.roundsLeft, hoffset]
        omega
      · cases h
  · cases h

/-- compares the parameters of a plug method with those of an instance member, round by round -/
def compareFrom (r : Registry) (candidate plug : List (Option TypeId)) (a : Alignment) : Bool :=
  match _h : r.compareRound candidate plug a with
  | .inl next => r.compareFrom candidate plug next
  | .inr fits => fits
termination_by a.roundsLeft candidate.length
decreasing_by exact roundsLeft_lt _h

/-- The parameters of a plug method fit those of an instance member.  The plug may have the instance
as a leading parameter, and a member without parameters is compared by the type of the instance. -/
def fitsInstanceMember (r : Registry) (declaring : Option TypeId)
    (candidate plug : List (Option TypeId)) : Bool :=
  if candidate.length != plug.length && candidate.length + 1 != plug.length then false
  else
    match candidate, plug with
    | [], none :: _ => true
    | [], some this :: _ => declaring.any (r.isAssignable this)
    | _, _ => r.compareFrom candidate plug {}

def instanceMemberUses (r : Registry) (declaring : Option TypeId)
    (candidate plug : List (Option TypeId)) : List TypeId :=
  if candidate.length != plug.length && candidate.length + 1 != plug.length then []
  else
    match candidate, plug with
    | [], some this :: _ => declaring.toList.flatMap (r.assignableUses this)
    | _, _ =>
      r.shapesFitUses plug candidate ++
        if r.shapesFit plug candidate then [] else r.shapesFitUses (plug.drop 1) candidate

/-- a plug method has the parameters of a member -/
def fitsMember (r : Registry) (plug : List (Option TypeId)) (candidate : MethodId) : Bool :=
  let shapes := r.comparableShapes candidate
  if (r.method candidate).isStatic then r.sameKnowns shapes plug
  else r.fitsInstanceMember (r.method candidate).declaring shapes plug

def memberUses (r : Registry) (plug : List (Option TypeId)) (candidate : MethodId) : List TypeId :=
  let shapes := r.comparableShapes candidate
  if (r.method candidate).isStatic then r.sameKnownsUses shapes plug
  else r.instanceMemberUses (r.method candidate).declaring shapes plug

def isConstructorAlias (name : String) : Bool :=
  Text.sameIgnoringCase name "ctor" || Text.sameIgnoringCase name "cctor"

/-- constructor plugs, and those with access to fields or to the object, are taken for granted -/
def takenForGranted (d : Method) : Bool :=
  isConstructorAlias d.name || d.params.any fun p => p.isFieldAccess || p.isObjectPointer

def matchesTargetMember (r : Registry) (target : TypeId) (plug : MethodId) : Bool :=
  takenForGranted (r.method plug) ||
    (r.methodsNamed target (r.method plug).name).any (r.fitsMember (r.comparableShapes plug))

def targetMemberUses (r : Registry) (target : TypeId) (plug : MethodId) : List TypeId :=
  if takenForGranted (r.method plug) then []
  else
    usesThrough (r.fitsMember (r.comparableShapes plug)) (r.memberUses (r.comparableShapes plug))
      (r.methodsNamed target (r.method plug).name)

def plugFinding? (r : Registry) (target : TypeId) (plug : MethodId) : Option Diagnostic :=
  let d := r.method plug
  let name := r.methodName plug
  if !d.isPublic || !d.isStatic then none
  else
    match d.plugOptions? with
    | some options =>
      if options.wildcard && options.assembler.isNone then
        some ⟨.warning, .plug, "Wildcard PlugMethods need to use an assembler for now.", some name⟩
      else none
    | none =>
      if r.matchesTargetMember target plug then none
      else
        some ⟨.warning, .plug, "Invalid plug method! Target method " ++ name ++ " not found",
          some name⟩

def plugFindingUses (r : Registry) (target : TypeId) (plug : MethodId) : List TypeId :=
  let d := r.method plug
  if d.isPublic && d.isStatic && d.plugOptions?.isNone then r.targetMemberUses target plug else []

def addFieldPlugs (r : Registry) (fields : FieldPlugs) (target plug : TypeId) :
    Except Error FieldPlugs :=
  (r.type plug).fieldPlugs.foldlM (fun fields replacement => fields.insert r target replacement)
    fields

def checkPlugType (r : Registry) (fields : FieldPlugs) (target plug : TypeId) :
    EStateM Error Diagnostics FieldPlugs := do
  modify (· ++ (r.type plug).methods.filterMap (r.plugFinding? target))
  MonadExcept.ofExcept (r.addFieldPlugs fields target plug)

def checkPlugs (r : Registry) (index : PlugIndex) : EStateM Error Diagnostics FieldPlugs :=
  index.closedPlugs.foldlM (fun fields (target, plug) => r.checkPlugType fields target plug) {}

/-- names read when plug types are checked, up to the first that replaces a field once more -/
def checkUsesFrom (r : Registry) (fields : FieldPlugs) : List (TypeId × TypeId) → List TypeId
  | [] => []
  | (target, plug) :: rest =>
    (r.type plug).methods.flatMap (r.plugFindingUses target) ++
      match r.addFieldPlugs fields target plug with
      | .ok fields => r.checkUsesFrom fields rest
      | .error _ => []

def checkUses (r : Registry) (index : PlugIndex) : List TypeId :=
  r.checkUsesFrom {} index.closedPlugs

end Registry

end ProgramScan
