import ProgramScan.Proofs.Instruction.Settled
import ProgramScan.Proofs.Plug.Settled
import ProgramScan.Scan.Reach

/-!
# What elements refer to

`Registry.Refers` says when one element of a program refers to another, without saying in which order
a scan looks at references or what it does about them:

* a type refers to its base, its type constructors, the types of its instance fields, its interfaces
  and, if it is an array that has helpers, to the helpers instantiated at its element;
* a method refers to its parameter types, its declaring type and, unless it is a constructor, its
  return type;
* a method with a plug refers to it unless the method is inline, to the parameter and return types of
  the plug and, unless the plug is inline, to what the code of the plug names;
* a method without plug refers to what its code names, unless it is inline.

Code names the methods it calls or loads as handles, the types of its operands, and of a field the
declaring type and, if it is static, the field (`Registry.Names`).
-/

namespace ProgramScan

namespace Registry

inductive Names (r : Registry) (code : List Instruction) : Item → Prop
  | method {i : Instruction} {m : MethodId} (hi : i ∈ code) (hm : i.method? = some m) :
    Names r code (.method m)
  | type {i : Instruction} {t : TypeId} (hi : i ∈ code) (ht : i.type? = some t) :
    Names r code (.type t)
  | owner {i : Instruction} {f : FieldId} (hi : i ∈ code) (hf : i.field? = some f) :
    Names r code (.type (r.field f).declaring)
  | staticField {i : Instruction} {f : FieldId} (hi : i ∈ code) (hf : i.field? = some f)
    (hs : (r.field f).isStatic = true) : Names r code (.field f)

/-- the index gives this answer to the question for the plug of `m` -/
def PlugOf (r : Registry) (index : PlugIndex) (m : MethodId) (answer : Option MethodId) : Prop :=
  ∃ r', PlugManager.resolveByIndex index m r = .ok answer r'

def CodeOf (r : Registry) (m : MethodId) (code : List Instruction) : Prop :=
  ∃ r', decode m r = .ok code r'

/-- `m` is a helper for arrays: hidden, not static, with one generic parameter -/
structure HelpsArrays (r : Registry) (helper : String) (m : MethodId) : Prop where
  declared : ∃ h, r.find? helper = some h ∧ m ∈ (r.type h).methods
  not_static : (r.method m).isStatic = false
  not_public : (r.method m).isPublic = false
  generic : (r.method m).isGenericDefinition = true
  one_parameter : (r.method m).genericArgs.length = 1

/-- One element of the program refers to another.  Plugs are those of `index`, array helpers those of
the type named `helper`. -/
inductive Refers (r : Registry) (index : PlugIndex) (helper : String) : Item → Item → Prop
  | base {t b : TypeId} (h : (r.type t).base = some b) : Refers r index helper (.type t) (.type b)
  | typeConstructor {t : TypeId} {m : MethodId} (hm : m ∈ (r.type t).methods)
    (hc : (r.method m).isTypeConstructor = true) : Refers r index helper (.type t) (.method m)
  | fieldType {t : TypeId} {f : FieldId} (hf : f ∈ (r.type t).fields)
    (hs : (r.field f).isStatic = false) :
    Refers r index helper (.type t) (.type (r.field f).type)
  | interface {t i : TypeId} (hi : i ∈ (r.type t).interfaces) :
    Refers r index helper (.type t) (.type i)
  | arrayHelper {t b e : TypeId} {m made : MethodId} {r' : Registry}
    (hb : (r.type t).base = some b) (hn : r.fullName b = "System.Array")
    (he : (r.type t).form.element? = some e) (hp : (r.type e).form.isPointer = false)
    (hm : r.HelpsArrays helper m) (hmade : instantiateMethod m [e] r = .ok made r') :
    Refers r index helper (.type t) (.method made)
  | parameter {m : MethodId} {t : TypeId} (ht : t ∈ (r.method m).paramTypes) :
    Refers r index helper (.method m) (.type t)
  | declaring {m : MethodId} {t : TypeId} (ht : (r.method m).declaring = some t) :
    Refers r index helper (.method m) (.type t)
  | returnType {m : MethodId} (hc : (r.method m).isConstructor = false) :
    Refers r index helper (.method m) (.type (r.method m).returnType)
  | plug {m p : MethodId} (hp : r.PlugOf index m (some p)) (hi : (r.method m).isInline = false) :
    Refers r index helper (.method m) (.method p)
  | plugParameter {m p : MethodId} {t : TypeId} (hp : r.PlugOf index m (some p))
    (ht : t ∈ (r.method p).paramTypes) : Refers r index helper (.method m) (.type t)
  | plugReturnType {m p : MethodId} (hp : r.PlugOf index m (some p))
    (hc : (r.method p).isConstructor = false) :
    Refers r index helper (.method m) (.type (r.method p).returnType)
  | plugCode {m p : MethodId} {code : List Instruction} {y : Item}
    (hp : r.PlugOf index m (some p)) (hi : (r.method p).isInline = false)
    (hc : r.CodeOf p code) (hy : r.Names code y) : Refers r index helper (.method m) y
  | code {m : MethodId} {code : List Instruction} {y : Item} (hp : r.PlugOf index m none)
    (hi : (r.method m).isInline = false) (hc : r.CodeOf m code) (hy : r.Names code y) :
    Refers r index helper (.method m) y

/-! ## what code names stays -/

section
variable {r r' : Registry} {code : List Instruction}

theorem HasCode.method (h : r.HasCode code) {i : Instruction} (hi : i ∈ code) {m : MethodId}
    (hm : i.method? = some m) : r.Has (.method m) := by
  refine h i hi (.method m) ?_
  simp only [Instruction.method?] at hm
  cases ho : i.operand with
  | method n uid => simp_all [Operand.items]
  | token item => cases item <;> simp_all [Operand.items, Item.method?]
  | _ => simp_all

theorem HasCode.type (h : r.HasCode code) {i : Instruction} (hi : i ∈ code) {t : TypeId}
    (ht : i.type? = some t) : r.Has (.type t) := by
  refine h i hi (.type t) ?_
  simp only [Instruction.type?] at ht
  cases ho : i.operand with
  | type u => simp_all [Operand.items]
  | token item => cases item <;> simp_all [Operand.items, Item.type?]
  | _ => simp_all

theorem HasCode.field (h : r.HasCode code) {i : Instruction} (hi : i ∈ code) {f : FieldId}
    (hf : i.field? = some f) : r.Has (.field f) := by
  refine h i hi (.field f) ?_
  simp only [Instruction.field?] at hf
  cases ho : i.operand with
  | field g => simp_all [Operand.items]
  | token item => cases item <;> simp_all [Operand.items, Item.field?]
  | _ => simp_all

theorem Names.has {y : Item} (hy : r.Names code y) (hw : r.WellFormed) (hc : r.HasCode code) :
    r.Has y := by
  cases hy with
  | method hi hm => exact hc.method hi hm
  | type hi ht => exact hc.type hi ht
  | owner hi hf => exact hw.declaringOf (hc.field hi hf)
  | staticField hi hf _ => exact hc.field hi hf

theorem Grows.names (hg : r.Grows r') (hc : r.HasCode code) {y : Item} :
    r'.Names code y ↔ r.Names code y := by
  constructor
  · intro hy
    cases hy with
    | method hi hm => exact .method hi hm
    | type hi ht => exact .type hi ht
    | owner hi hf =>
      rw [hg.field (hc.field hi hf)]
      exact .owner hi hf
    | staticField hi hf hs =>
      rw [hg.field (hc.field hi hf)] at hs
      exact .staticField hi hf hs
  · intro hy
    cases hy with
    | method hi hm => exact .method hi hm
    | type hi ht => exact .type hi ht
    | owner hi hf =>
      rw [← hg.field (hc.field hi hf)]
      exact .owner hi hf
    | staticField hi hf hs =>
      rw [← hg.field (hc.field hi hf)] at hs
      exact .staticField hi hf hs

end

/-! ## the lists of references that a scan follows -/

theorem mem_operandReferences {r : Registry} {i : Instruction} {y : Item} :
    (∃ ref ∈ r.operandReferences i.operand, ref.item = y) ↔ r.Names [i] y := by
  have hnames : r.Names [i] y ↔
      (∃ m, i.method? = some m ∧ .method m = y) ∨ (∃ t, i.type? = some t ∧ .type t = y) ∨
        (∃ f, i.field? = some f ∧ (.type (r.field f).declaring = y ∨
          ((r.field f).isStatic = true ∧ .field f = y))) := by
    constructor
    · intro hy
      cases hy with
      | method hi hm => exact .inl ⟨_, List.mem_singleton.mp hi ▸ hm, rfl⟩
      | type hi ht => exact .inr (.inl ⟨_, List.mem_singleton.mp hi ▸ ht, rfl⟩)
      | owner hi hf => exact .inr (.inr ⟨_, List.mem_singleton.mp hi ▸ hf, .inl rfl⟩)
      | staticField hi hf hs =>
        exact .inr (.inr ⟨_, List.mem_singleton.mp hi ▸ hf, .inr ⟨hs, rfl⟩⟩)
    · rintro (⟨m, hm, rfl⟩ | ⟨t, ht, rfl⟩ | ⟨f, hf, rfl | ⟨hs, rfl⟩⟩)
      · exact .method (List.mem_singleton.mpr rfl) hm
      · exact .type (List.mem_singleton.mpr rfl) ht
      · exact .owner (List.mem_singleton.mpr rfl) hf
      · exact .staticField (List.mem_singleton.mpr rfl) hf hs
  have hfield : ∀ f, (∃ ref ∈ r.fieldReferences f, ref.item = y) ↔
      (.type (r.field f).declaring = y ∨ ((r.field f).isStatic = true ∧ .field f = y)) := by
    intro f
    simp only [fieldReferences]
    split <;> simp_all
  rw [hnames]
  simp only [Instruction.method?, Instruction.type?, Instruction.field?]
  cases i.operand with
  | method m uid => simp [operandReferences]
  | type t => simp [operandReferences]
  | field f => simpa [operandReferences] using hfield f
  | token item =>
    cases item with
    | type t => simp [operandReferences, Item.method?, Item.type?, Item.field?]
    | method m => simp [operandReferences, Item.method?, Item.type?, Item.field?]
    | field f => simpa [operandReferences, Item.method?, Item.type?, Item.field?] using hfield f
  | _ => simp [operandReferences]

theorem names_iff {r : Registry} {code : List Instruction} {y : Item} :
    r.Names code y ↔ ∃ i ∈ code, r.Names [i] y := by
  constructor
  · intro hy
    cases hy with
    | method hi hm => exact ⟨_, hi, .method (List.mem_singleton.mpr rfl) hm⟩
    | type hi ht => exact ⟨_, hi, .type (List.mem_singleton.mpr rfl) ht⟩
    | owner hi hf => exact ⟨_, hi, .owner (List.mem_singleton.mpr rfl) hf⟩
    | staticField hi hf hs => exact ⟨_, hi, .staticField (List.mem_singleton.mpr rfl) hf hs⟩
  · rintro ⟨i, hi, hy⟩
    cases hy with
    | method hj hm => exact .method (List.mem_singleton.mp hj ▸ hi) hm
    | type hj ht => exact .type (List.mem_singleton.mp hj ▸ hi) ht
    | owner hj hf => exact .owner (List.mem_singleton.mp hj ▸ hi) hf
    | staticField hj hf hs => exact .staticField (List.mem_singleton.mp hj ▸ hi) hf hs

/-- **A scan follows exactly what code names.** -/
theorem mem_codeReferences {r : Registry} {code : List Instruction} {y : Item} :
    (∃ ref ∈ r.codeReferences code, ref.item = y) ↔ r.Names code y := by
  rw [names_iff]
  simp only [codeReferences, List.mem_flatMap]
  constructor
  · rintro ⟨ref, ⟨i, hi, href⟩, rfl⟩
    exact ⟨i, hi, mem_operandReferences.mp ⟨ref, href, rfl⟩⟩
  · rintro ⟨i, hi, hy⟩
    obtain ⟨ref, href, rfl⟩ := mem_operandReferences.mpr hy
    exact ⟨ref, ⟨i, hi, href⟩, rfl⟩

end Registry

end ProgramScan
