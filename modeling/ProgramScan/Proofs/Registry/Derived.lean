import ProgramScan.Proofs.Registry.Composition

/-!
# Methods that share code

A member of an instance and an instance of a generic method have the code of the method that they were
made from, unless they are given a body.  They read it with an argument for each parameter of that
method and of its type.

* `Registry.CodeFrom`             a method has its code from another one;
* `CodeFrom.of_correspondingMethod`, `CodeFrom.of_instantiateMethod`
                                  members of instances and instances of methods do;
* `CodeFrom.body?_eq`, `CodeFrom.module_eq`
                                  it has the body, and the module whose tokens the body names;
* `Registry.IsMethodDefinition`   a method that was made from no other one, on a type that is no instance;
* `composes_contextOf`            in a faithful program, what a definition names from its own parameters is
                                  seen from the arguments as what it names is.
-/

namespace ProgramScan

/-- types that are neither definitions nor instances have no arguments -/
theorem TypeForm.genericArgs_eq_nil {f : TypeForm} (hdef : f.isDefinition = false)
    (hinst : f.definition? = none) : f.genericArgs = [] := by
  cases f with
  | defined kind params => cases hdef
  | instantiated kind definition args => cases hinst
  | parameter index owner => rfl
  | constructed shape element => rfl

theorem GenericContext.argsOf_eq_nil (ctx : GenericContext) (h : ctx.isEmpty = true)
    (owner : ParameterOwner) : ctx.argsOf owner = [] := by
  rw [isEmpty, Bool.and_eq_true, List.isEmpty_iff, List.isEmpty_iff] at h
  cases owner with
  | type => exact h.1
  | method => exact h.2

namespace Registry

variable {r r' : Registry} {d m : MethodId}

/-- `m` has its code from `d`: it is `d`, or it was made from a method that has its code from `d`, and it
was given no body. -/
inductive CodeFrom (r : Registry) (d : MethodId) : MethodId → Prop
  | self : CodeFrom r d d
  | made {x m : MethodId} (hx : CodeFrom r d x) (hm : (r.method m).origin.source? = some x)
    (hbody : (r.method m).body = none) : CodeFrom r d m

theorem has_of_source? {x : MethodId} (h : (r.method m).origin.source? = some x) :
    r.Has (.method m) := by
  by_contra hnot
  rw [method_of_not_has hnot] at h
  cases h

theorem body?_of_source (hw : r.WellFormed) {x : MethodId}
    (h : (r.method m).origin.source? = some x) :
    r.body? m = (r.method m).body.or (r.body? x) := by
  have hhas := has_of_source? h
  have hlt : m.index < r.methods.size := hhas
  rw [Registry.body?, bodyWithin_eq hw hhas (Nat.le_of_lt hlt) (Nat.le_succ _), bodyWithin_succ, h]
  rfl

theorem body?_of_declared (h : (r.method m).origin = .declared) : r.body? m = (r.method m).body := by
  rw [Registry.body?]
  cases r.methods.size with
  | zero => rw [bodyWithin]
  | succ n =>
    rw [bodyWithin_succ, h]
    exact Option.or_none

/-- What is made from a method has its arguments in the same places: members of instances have those of
the instance, instances of methods their own. -/
theorem Coherent.made (hc : r.Coherent) {x : MethodId} (h : (r.method m).origin.source? = some x) :
    ((r.method m).declaring.map fun t => (r.type t).module) =
        ((r.method x).declaring.map fun t => (r.type t).module) ∧
      (r.declaringArgs m).length = (r.declaringArgs x).length ∧
      (r.method m).genericArgs.length = (r.method x).genericArgs.length := by
  cases horigin : (r.method m).origin with
  | declared =>
    rw [horigin] at h
    cases h
  | memberOf c =>
    rw [horigin] at h
    obtain rfl := Option.some.inj h
    obtain ⟨t, hmember⟩ := hc.listed.members m _ horigin
    obtain ⟨kind, definition, args, hf, hx, _, _, -, -, hsig⟩ := hmember.copied
    have hd := hmember.declaring
    have ht := hc.wellFormed.declaring (has_of_declaring hd) hd
    have hmodule := ((hc.orderly.placed t ht).definition definition (by rw [hf]; rfl)).module
    have hargs := congrArg Method.genericArgs hsig
    refine ⟨?_, ?_, congrArg List.length hargs⟩
    · rw [hd, hx, Option.map_some, Option.map_some, hmodule]
    · rw [declaringArgs, declaringArgs, hd, hx]
      dsimp only
      rw [hf, hc.listed.arity t kind definition args hf]
      rfl
  | instanceOf c =>
    rw [horigin] at h
    obtain rfl := Option.some.inj h
    have hdef : (r.method m).genericDefinition? = some c := by
      rw [Method.genericDefinition?, horigin]
    have hinst := hc.patterned m c hdef
    refine ⟨by rw [hinst.declaring], ?_, hinst.arity⟩
    rw [declaringArgs, declaringArgs, hinst.declaring]

/-- in a faithful program, the instance of a method that is none is one of this method, with the
arguments that were given -/
theorem Faithful.of_instantiateMethod (hf : r'.Faithful) (hc : r.Coherent) {x : MethodId}
    {args : List TypeId} (hx : r.Has (.method x)) (hplain : (r.method x).genericDefinition? = none)
    (ha : ∀ a ∈ args, r.Has (.type a)) (hrun : instantiateMethod x args r = .ok m r') :
    (r'.method m).genericDefinition? = some x ∧ (r'.method m).genericArgs = args := by
  have hg := (coheres_instantiateMethod hc hx ha).ok hrun
  have hkey := ((hc.ends_instantiateMethod hx ha).1 m r' hrun).2
  rw [methodDefinitionOf_of_plain hplain, ← hg.grows.methodInstanceKey hc.wellFormed hx ha] at hkey
  have hne : args ≠ [] := by
    rintro rfl
    simpa using arity_of_instantiateMethod hplain hrun
  exact hf.methodInstance hg.coherent (hg.grows.has hx) (fun a hmem => hg.grows.has (ha a hmem)) hne
    hkey

namespace CodeFrom

theorem has (hd : r.Has (.method d)) (h : r.CodeFrom d m) : r.Has (.method m) := by
  cases h with
  | self => exact hd
  | made _ hm => exact has_of_source? hm

theorem mono (hg : r.Grows r') (h : r.CodeFrom d m) : r'.CodeFrom d m := by
  induction h with
  | self => exact .self
  | made _ hm hbody ih =>
    have hhas := has_of_source? hm
    exact .made ih (by rwa [hg.method hhas]) (by rwa [hg.method hhas])

theorem of_correspondingMethod {owner : TypeId} (hd : (r.method d).origin = .declared)
    (hrun : correspondingMethod owner d r = .ok m r') (hbody : m = d ∨ (r.method m).body = none) :
    r.CodeFrom d m := by
  obtain ⟨-, hstems, -⟩ := correspondingMethod_found hrun
  rw [Method.memberDefinition?, hd, Option.getD_none, stemsFrom, Bool.or_eq_true, decide_eq_true_eq,
    decide_eq_true_eq] at hstems
  rcases hstems with rfl | hmember
  · exact .self
  · rcases hbody with rfl | hbody
    · exact .self
    · exact .made .self (source?_of_memberDefinition? hmember) hbody

/-- in a faithful program, the instance of a method that has its code from a definition has it from
there too -/
theorem of_instantiateMethod (hc : r.Coherent) {x : MethodId} {args : List TypeId}
    (hx : r.Has (.method x)) (hplain : (r.method x).genericDefinition? = none)
    (ha : ∀ a ∈ args, r.Has (.type a)) (h : r.CodeFrom d x)
    (hrun : instantiateMethod x args r = .ok m r') (hf : r'.Faithful)
    (hbody : (r'.method m).body = none) : r'.CodeFrom d m := by
  have hg := (coheres_instantiateMethod hc hx ha).ok hrun
  obtain ⟨hdef, -⟩ := hf.of_instantiateMethod hc hx hplain ha hrun
  exact .made (h.mono hg.grows) (source?_of_genericDefinition? hdef) hbody

theorem body?_eq (hw : r.WellFormed) (h : r.CodeFrom d m) : r.body? m = r.body? d := by
  induction h with
  | self => rfl
  | made _ hm hbody ih => rw [← ih, body?_of_source hw hm, hbody, Option.none_or]

variable (hc : r.Coherent)
include hc

theorem module_eq (h : r.CodeFrom d m) :
    ((r.method m).declaring.map fun t => (r.type t).module) =
      ((r.method d).declaring.map fun t => (r.type t).module) := by
  induction h with
  | self => rfl
  | made _ hm _ ih => exact (hc.made hm).1.trans ih

theorem length_argsOf (h : r.CodeFrom d m) (owner : ParameterOwner) :
    ((r.contextOf m).argsOf owner).length = ((r.contextOf d).argsOf owner).length := by
  induction h with
  | self => rfl
  | made _ hm _ ih =>
    refine Eq.trans ?_ ih
    cases owner with
    | type => exact (hc.made hm).2.1
    | method => exact (hc.made hm).2.2

end CodeFrom

/-! ## contexts of definitions -/

/-- `d` was made from no other method, and its type is no instance -/
structure IsMethodDefinition (r : Registry) (d : MethodId) : Prop where
  declared : (r.method d).origin = .declared
  home : ∀ t, (r.method d).declaring = some t → (r.type t).form.definition? = none

theorem IsMethodDefinition.mono (hw : r.WellFormed) (hg : r.Grows r') (hd : r.Has (.method d))
    (h : r.IsMethodDefinition d) : r'.IsMethodDefinition d where
  declared := by rw [hg.method hd, h.declared]
  home t ht := by
    rw [hg.method hd] at ht
    rw [hg.type (hw.declaring hd ht), h.home t ht]

theorem IsMethodDefinition.inPlace (h : r.IsMethodDefinition d) (hf : r.Faithful) (hw : r.WellFormed)
    (hd : r.Has (.method d)) (owner : ParameterOwner) :
    r.InPlace owner ((r.contextOf d).argsOf owner) := by
  cases owner with
  | method => exact hf.methodParams _ (method_mem hd) (by rw [Method.genericDefinition?, h.declared])
  | type =>
    show r.InPlace .type (r.declaringArgs d)
    cases ht : (r.method d).declaring with
    | none =>
      rw [declaringArgs, ht]
      exact fun e he => absurd he List.not_mem_nil
    | some t =>
      have hargs : r.declaringArgs d = (r.type t).form.genericArgs := by rw [declaringArgs, ht]
      rw [hargs]
      cases hdefn : (r.type t).form.isDefinition with
      | true => exact hf.typeParams _ (type_mem (hw.declaring hd ht)) hdefn
      | false =>
        rw [TypeForm.genericArgs_eq_nil hdefn (h.home t ht)]
        exact fun e he => absurd he List.not_mem_nil

theorem isEmpty_eq_of_length_argsOf {c c' : GenericContext}
    (h : ∀ owner, (c.argsOf owner).length = (c'.argsOf owner).length) : c.isEmpty = c'.isEmpty := by
  have htype : c.typeArgs.length = c'.typeArgs.length := h .type
  have hmethod : c.methodArgs.length = c'.methodArgs.length := h .method
  rw [Bool.eq_iff_iff]
  simp only [GenericContext.isEmpty, Bool.and_eq_true, List.isEmpty_iff_length_eq_zero, htype, hmethod]

/-- a parameter becomes its argument, or stays -/
theorem replaces_parameter {ctx : GenericContext} {p : TypeId} {index : Nat} {owner : ParameterOwner}
    (hp : (r.type p).form = .parameter index owner) :
    r.Replaces ctx p ((ctx.argsOf owner)[index]?.getD p) := by
  have hopen : r.isOpen p = true := by
    rw [Registry.isOpen, Registry.isOpenWithin, hp]
  by_cases hclosed : (ctx.isEmpty || !r.isOpen p) = true
  · have hempty : ctx.argsOf owner = [] := by
      rw [hopen, Bool.not_true, Bool.or_false] at hclosed
      exact ctx.argsOf_eq_nil hclosed owner
    rw [hempty]
    exact .closed hclosed
  · exact .parameter hclosed hp

/-- **What a definition names from its own parameters is seen from the arguments as what it names is.** -/
theorem composes_contextOf (hf : r.Faithful) (hc : r.Coherent) (hd : r.Has (.method d))
    (hdef : r.IsMethodDefinition d) (h : r.CodeFrom d m) :
    r.Composes (r.contextOf d) (r.contextOf m) (r.contextOf m) where
  has₁ := hc.wellFormed.contextOf hd
  has₁₂ := hc.wellFormed.contextOf (h.has hd)
  empty₁ := isEmpty_eq_of_length_argsOf fun owner => (h.length_argsOf hc owner).symm
  empty₁₂ := rfl
  parameter p index owner hp := by
    have hlength := h.length_argsOf hc owner
    cases hq : ((r.contextOf d).argsOf owner)[index]? with
    | none =>
      have hnone : ((r.contextOf m).argsOf owner)[index]? = none := by
        rw [List.getElem?_eq_none_iff] at hq ⊢
        rwa [hlength]
      have hstays : r.Replaces (r.contextOf m) p _ := replaces_parameter hp
      rwa [hnone] at hstays ⊢
    | some q =>
      obtain ⟨hlt, -⟩ := List.getElem?_eq_some_iff.mp hq
      rw [← hlength] at hlt
      have hform := (hdef.inPlace hf hc.wellFormed hd owner).getElem? hq
      have harg : r.Replaces (r.contextOf m) q _ := replaces_parameter hform
      rwa [List.getElem?_eq_getElem hlt] at harg ⊢

end Registry

end ProgramScan
