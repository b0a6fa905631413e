import ProgramScan.Proofs.Instruction.Coherence
import ProgramScan.Proofs.Registry.Derived

/-!
# Instances share the instructions of their definition

An instance of a method is decoded from the body of its definition.  The instructions are the same but
for the types and members that they name, and these are what the definition names, seen from the context
of the instance (`Registry.decode_seenFrom`).

* `Item.SeenFrom`          an element from a context, as substitution gives it;
* `Operand.SeenFrom`       an operand from a context: other operands than elements stay;
* `Instruction.SeenFrom`   an instruction from a context, apart from its stack effect;
* `seenFrom_of_operands`   segments that are read in two contexts;
* `decode_own_body`        an instance that has a body of its own;
* `decode_not_seenFrom`    types of one key that are made on the way.
-/

namespace ProgramScan

open Registry

/-- `y` is the element `x` as seen from `ctx`: substitution gives it, from `r` on -/
inductive Item.SeenFrom (r : Registry) (ctx : GenericContext) : Item → Item → Prop
  | type {t u : TypeId} (h : Settled (substitute ctx t) u r) : SeenFrom r ctx (.type t) (.type u)
  | method {m n : MethodId} (h : Settled (substituteMethod ctx m) n r) :
    SeenFrom r ctx (.method m) (.method n)
  | field {f g : FieldId} (h : Settled (substituteField ctx f) g r) :
    SeenFrom r ctx (.field f) (.field g)

def Operand.item? : Operand → Option Item
  | .method m _ => some (.method m)
  | .field f => some (.field f)
  | .type t => some (.type t)
  | .token item => some item
  | _ => Option.none

/-- The operand that names what another one names, as seen from `ctx`.  Operands that name no element are
the same. -/
inductive Operand.SeenFrom (r : Registry) (ctx : GenericContext) : Operand → Operand → Prop
  | type {t u : TypeId} (h : Item.SeenFrom r ctx (.type t) (.type u)) :
    SeenFrom r ctx (.type t) (.type u)
  | method {m n : MethodId} (h : Item.SeenFrom r ctx (.method m) (.method n)) :
    SeenFrom r ctx (.method m Option.none) (.method n Option.none)
  | field {f g : FieldId} (h : Item.SeenFrom r ctx (.field f) (.field g)) :
    SeenFrom r ctx (.field f) (.field g)
  | token {x y : Item} (h : Item.SeenFrom r ctx x y) : SeenFrom r ctx (.token x) (.token y)
  | other {operand : Operand} (h : operand.item? = Option.none) : SeenFrom r ctx operand operand

theorem Operand.SeenFrom.item? {r : Registry} {ctx : GenericContext} {operand operand' : Operand}
    (h : operand.SeenFrom r ctx operand') :
    Option.Rel (Item.SeenFrom r ctx) operand.item? operand'.item? := by
  cases h with
  | type h => exact .some h
  | method h => exact .some h
  | field h => exact .some h
  | token h => exact .some h
  | other h =>
    rw [h]
    exact .none

/-- `j` is the instruction `i` as seen from `ctx`, apart from its stack effect -/
structure Instruction.SeenFrom (r : Registry) (ctx : GenericContext) (i j : Instruction) : Prop where
  offset : j.offset = i.offset
  next : j.next = i.next
  encoded : j.encoded = i.encoded
  opcode : j.opcode = i.opcode
  region : j.region = i.region
  operand : i.operand.SeenFrom r ctx j.operand

namespace Registry

variable {r : Registry} {ctx : GenericContext}

theorem item?_eq_none {operand : Operand} (h : operand.items = []) : operand.item? = none := by
  cases operand <;> first | rfl | cases h

theorem Denotes.seenFrom (hc : r.Coherent) (hctx : r.HasContext ctx) {a b : Resolved}
    (hitems : ∀ x ∈ a.items, r.Has x) (h : r.Denotes ctx a.target b) {kind : OperandKind}
    {operand operand' : Operand} (ha : operandOf? kind a = some operand)
    (hb : operandOf? kind b = some operand') : operand.SeenFrom r ctx operand' := by
  cases a with
  | type t =>
    cases h with
    | type h =>
      have hset := Item.SeenFrom.type
        (h.settled hc.orderly hctx (hitems _ (List.mem_singleton.mpr rfl)))
      cases kind <;> cases ha <;> cases hb
      · exact .type hset
      · exact .token hset
  | method m =>
    cases h with
    | method h =>
      have hset := Item.SeenFrom.method (h.settled hc hctx (hitems _ (List.mem_singleton.mpr rfl)))
      cases kind <;> cases ha <;> cases hb
      · exact .method hset
      · exact .token hset
  | field f =>
    cases h with
    | field h =>
      have hset := Item.SeenFrom.field (h.settled hc hctx (hitems _ (List.mem_singleton.mpr rfl)))
      cases kind <;> cases ha <;> cases hb
      · exact .field hset
      · exact .token hset
  | string text =>
    cases h
    cases kind <;> cases ha
    cases hb
    exact .other rfl
  | signature site =>
    cases h
    cases kind <;> cases ha
    cases hb
    exact .other rfl

/-- The operand of a segment that is read in two contexts, where the one follows from the other. -/
theorem seenFrom_of_denotes {ctx₁ ctx₂ : DecodeContext} (hmodule : ctx₂.module = ctx₁.module)
    (hf : r.Faithful) (hc : r.Coherent)
    (hcomp : r.Composes ctx₁.generic ctx₂.generic ctx₂.generic) {s : Segment} {stop : Nat}
    {r₁ r₁' r₂ r₂' : Registry} (hc₁ : r₁.Coherent) (hc₂ : r₂.Coherent)
    (hctx₁ : r₁.HasContext ctx₁.generic) (hctx₂ : r₂.HasContext ctx₂.generic)
    {operand operand' : Operand} (h₁ : s.Denotes ctx₁ stop r₁ operand r₁')
    (h₂ : s.Denotes ctx₂ stop r₂ operand' r₂') (hg₁ : Grown r₁' r) (hg₂ : Grown r₂' r) :
    operand.SeenFrom r ctx₂.generic operand' := by
  cases h₁ with
  | plain hs =>
    cases h₂ with
    | plain => exact .other (item?_eq_none (items_value s stop))
    | token hs' => cases hs.symm.trans hs'
  | token hs hfound hoperand =>
    cases h₂ with
    | plain hs' => cases hs'.symm.trans hs
    | token _ hfound' hoperand' =>
      have hstep₁ := (coheres_resolveToken hc₁ hctx₁ _ _).ok hfound
      have hstep₂ := (coheres_resolveToken hc₂ hctx₂ _ _).ok hfound'
      obtain ⟨target, ht, hdenotes⟩ := Denotes.of_run hc₁ hctx₁ hfound
      obtain ⟨target', ht', hdenotes'⟩ := Denotes.of_run hc₂ hctx₂ hfound'
      -- the two programs have the tokens of the one that both grew into
      have hsame : r₂.module ctx₂.module = r₁.module ctx₁.module := by
        rw [hmodule, ← (hstep₁.trans hg₁).grows.module, ← (hstep₂.trans hg₂).grows.module]
      rw [hsame, ht] at ht'
      obtain rfl := Option.some.inj ht'
      have hitems : ∀ x ∈ target.items, r₁'.Has x := fun x hx =>
        hstep₁.grows.has (hc₁.wellFormed.tokenTarget ht hx)
      have hitems' : ∀ x ∈ target.items, r₂'.Has x := fun x hx =>
        hstep₂.grows.has (hc₂.wellFormed.tokenTarget (by rw [hsame, ht]) hx)
      have hseen := hcomp.target hf hc (fun x hx => hg₁.grows.has (hitems x hx))
        (hdenotes.mono hstep₁.coherent hg₁ (hstep₁.grows.hasContext hctx₁) hitems)
        (hdenotes'.mono hstep₂.coherent hg₂ (hstep₂.grows.hasContext hctx₂) hitems')
      exact hseen.seenFrom hc hcomp.has₁₂ (fun x hx => hg₁.grows.has
        (((builds_resolveToken hc₁.wellFormed hctx₁ _ _).ok hfound).2.2.2 x hx)) hoperand hoperand'

/-- **Segments that are read in two contexts** give the same instructions but for the elements that they
name. -/
theorem seenFrom_of_operands {ctx₁ ctx₂ : DecodeContext} (hmodule : ctx₂.module = ctx₁.module)
    (hf : r.Faithful) (hc : r.Coherent)
    (hcomp : r.Composes ctx₁.generic ctx₂.generic ctx₂.generic) (regions : List Region)
    {start : Nat} {segments : List Segment} {r₁ r₁' r₂ r₂' : Registry} {operands operands' : List Operand}
    (h₁ : Operands ctx₁ start segments r₁ operands r₁')
    (h₂ : Operands ctx₂ start segments r₂ operands' r₂') (hc₁ : r₁.Coherent) (hc₂ : r₂.Coherent)
    (hctx₁ : r₁.HasContext ctx₁.generic) (hctx₂ : r₂.HasContext ctx₂.generic) (hg₁ : Grown r₁' r)
    (hg₂ : Grown r₂' r) :
    List.Forall₂ (Instruction.SeenFrom r ctx₂.generic)
      (Segment.instructions regions start segments operands)
      (Segment.instructions regions start segments operands') := by
  induction h₁ generalizing r₂ operands' with
  | nil =>
    cases h₂
    exact .nil
  | cons hfirst hrest ih =>
    cases h₂ with
    | cons hfirst' hrest' =>
      have hstep₁ := grown_of_operands (.cons hfirst .nil) hc₁ hctx₁
      have hstep₂ := grown_of_operands (.cons hfirst' .nil) hc₂ hctx₂
      have hctx₁' := hstep₁.1.grows.hasContext hctx₁
      have hctx₂' := hstep₂.1.grows.hasContext hctx₂
      have hlater₁ := (grown_of_operands hrest hstep₁.1.coherent hctx₁').1
      have hlater₂ := (grown_of_operands hrest' hstep₂.1.coherent hctx₂').1
      have hseen := seenFrom_of_denotes hmodule hf hc hcomp hc₁ hc₂ hctx₁ hctx₂ hfirst hfirst'
        (hlater₁.trans hg₁) (hlater₂.trans hg₂)
      exact .cons ⟨rfl, rfl, rfl, rfl, rfl, hseen⟩
        (ih hrest' hstep₁.1.coherent hstep₂.1.coherent hctx₁' hctx₂' hg₁)

/-- instructions are seen from a context if they are without their stack effects -/
theorem seenFrom_of_unstacked {i j : Instruction} (h : i.unstacked.SeenFrom r ctx j.unstacked) :
    i.SeenFrom r ctx j :=
  ⟨h.offset, h.next, h.encoded, h.opcode, h.region, h.operand⟩

theorem decode_eq_nil {r' noted : Registry} {m : MethodId} {code : List Instruction}
    (hn : replacement? m r = .ok none noted) (hb : r.body? m = none)
    (hrun : decode m r = .ok code r') : code = [] := by
  obtain ⟨ts, rfl⟩ := leavesNone_replacement? m r noted hn
  rw [decode, bind_apply, hn] at hrun
  dsimp only at hrun
  rw [get_bind_apply] at hrun
  have hb' : (r.useNames ts).body? m = none := (bodyWithin_useNames r ts _ m).trans hb
  rw [hb'] at hrun
  cases hrun
  rfl

theorem exists_declaring_of_decode {r' noted : Registry} {m : MethodId} {code : List Instruction}
    {body : Body} (hn : replacement? m r = .ok none noted) (hb : r.body? m = some body)
    (hrun : decode m r = .ok code r') : ∃ t, (r.method m).declaring = some t := by
  obtain ⟨ts, rfl⟩ := leavesNone_replacement? m r noted hn
  rw [decode, bind_apply, hn] at hrun
  dsimp only at hrun
  rw [get_bind_apply] at hrun
  have hb' : (r.useNames ts).body? m = some body := (bodyWithin_useNames r ts _ m).trans hb
  cases ht : (r.method m).declaring with
  | none =>
    have ht' : ((r.useNames ts).method m).declaring = none := ht
    rw [hb', ht'] at hrun
    cases hrun
  | some t => exact ⟨t, rfl⟩

/-- **Instances have the instructions of their definition**, with what these name seen from the context of
the instance.  `d` is a method definition, `m` has its code from `d`, and nothing stands in for the
code of either.  If both are decoded, their instructions agree place by place: in offsets, opcodes,
exception regions and operands that name no element, and each element that `m` names is substituted
from the one that `d` names.  The program is faithful at the end. -/
theorem decode_seenFrom {r r₁ r₂ noted noted₁ : Registry} (hr : r.Built) {d m : MethodId}
    (hd : r.Has (.method d)) (hdef : r.IsMethodDefinition d) (hm : r.CodeFrom d m)
    (hn : replacement? d r = .ok none noted) (hn₁ : replacement? m r₁ = .ok none noted₁)
    {code code' : List Instruction} (hcode : decode d r = .ok code r₁)
    (hcode' : decode m r₁ = .ok code' r₂) (hf : r₂.Faithful) :
    List.Forall₂ (Instruction.SeenFrom r₂ (r₂.contextOf m)) code code' := by
  have hc := hr.coherent
  have hw := hc.wellFormed
  have hmhas := hm.has hd
  have hbody := hm.body?_eq hw
  have hgrows := ((builds_decode hw hd).ok hcode).1
  have hbody₁ : r₁.body? m = r.body? d := by rw [hgrows.body? hw hmhas, hbody]
  cases hb : r.body? d with
  | none =>
    rw [decode_eq_nil hn hb hcode, decode_eq_nil hn₁ (hbody₁.trans hb) hcode']
    exact .nil
  | some body =>
    obtain ⟨declaring, ht⟩ := exists_declaring_of_decode hn hb hcode
    obtain ⟨declaring', ht'⟩ := exists_declaring_of_decode hn₁ (hbody₁.trans hb) hcode'
    -- both are cut into the same segments
    obtain ⟨segments, operands, s, hg, hnoted, hend, hjoin, hoperands, hinstr⟩ :=
      grown_of_decode hc hd hn ht hb hcode
    obtain ⟨segments', operands', s', hg', hnoted', hend', hjoin', hoperands', hinstr'⟩ :=
      grown_of_decode hg.coherent (hg.grows.has hmhas) hn₁ ht' (hbody₁.trans hb) hcode'
    obtain rfl := Segment.join_inj (hjoin.trans hjoin'.symm)
    have hmodule : (r₁.bodyContext m declaring' body).module = (r.bodyContext d declaring body).module := by
      rw [hg.grows.method hmhas] at ht'
      have hmodules := hm.module_eq hc
      rw [ht, ht'] at hmodules
      show (r₁.type declaring').module = (r.type declaring).module
      rw [hg.grows.type (hw.declaring hmhas ht')]
      exact Option.some.inj hmodules
    -- in the last program the one context follows from the other
    have hlater := hg.trans hg'
    have hd₂ := hlater.grows.has hd
    have hcomp := composes_contextOf hf hlater.coherent hd₂ (hdef.mono hw hlater.grows hd)
      (hm.mono hlater.grows)
    have hctx : r₂.contextOf d = r.contextOf d := hlater.grows.contextOf hw hd
    have hctx' : r₂.contextOf m = r₁.contextOf m :=
      hg'.grows.contextOf hg.coherent.wellFormed (hg.grows.has hmhas)
    rw [hctx, hctx'] at hcomp
    have hseen := seenFrom_of_operands hmodule hf hlater.coherent hcomp body.regions hoperands
      hoperands' hnoted.coherent hnoted'.coherent (hnoted.grows.hasContext (hw.contextOf hd))
      (hnoted'.grows.hasContext (hg.coherent.wellFormed.contextOf (hg.grows.has hmhas)))
      (hend.trans hg') hend'
    rw [hctx']
    rw [← hinstr, ← hinstr', List.forall₂_map_left_iff, List.forall₂_map_right_iff] at hseen
    exact hseen.imp fun _ _ h => seenFrom_of_unstacked h

/-! ## a program to look at -/

def fillDesign : MethodDesign where
  module := ⟨1⟩
  name := "Fill"
  declaring := some ⟨21⟩
  modifiers := MethodFlags.isStatic
  genericParams := [⟨22⟩]
  body := some
    { code := [0x7E, 1, 0, 0, 4, 0x26, 0x28, 1, 0, 0, 0x0A, 0x16, 0x8D, 1, 0, 0, 0x1B, 0x26, 0x2A] }

/-- `Store<T>` has a static field `item` of type `T`.  Its method `Fill<U>` reads this field, calls
`Fill<T>` and makes an array of `U`. -/
def stores : Registry :=
  core.applyAll [.addModule "App",
    .declareType { module := ⟨1⟩, namespaceName := "", name := "Store", generic := ["T"] },
    .declareField ⟨1⟩ ⟨21⟩ "item" ⟨20⟩ FieldFlags.isStatic [],
    .addParameter ⟨1⟩ "U" 0 .method, .declareMethod fillDesign, .instantiateMethod ⟨0⟩ [⟨20⟩],
    .tokenFor ⟨1⟩ (.type (some ⟨22⟩)), .tokenFor ⟨1⟩ (.method (some ⟨1⟩)),
    .instantiate ⟨21⟩ [⟨12⟩], .instantiateMethod ⟨2⟩ [⟨4⟩]]

theorem built_stores : stores.Built := Built.core.applyAll (by decide +kernel)

/-- `Store<System.Int32>.Fill<System.String>` and `Store<T>.Fill<U>` -/
theorem decode_seenFrom_stores : ∃ code r₁ code' r₂, decode ⟨0⟩ stores = .ok code r₁ ∧
    decode ⟨3⟩ r₁ = .ok code' r₂ ∧ code'.length = 7 ∧
    List.Forall₂ (Instruction.SeenFrom r₂ (r₂.contextOf ⟨3⟩)) code code' := by
  obtain ⟨hn, hP, hhas, horigin, hdeclaring, hhome, hmember, hmemberBody, hinstance, hinstanceBody⟩ :
      answersWith (replacement? ⟨0⟩) stores (fun found _ => found.isNone) = true ∧
      answersWith (decode ⟨0⟩) stores (fun _ r₁ =>
        answersWith (replacement? ⟨3⟩) r₁ (fun found _ => found.isNone) &&
          answersWith (decode ⟨3⟩) r₁ (fun code' r₂ => decide (code'.length = 7 ∧ r₂.Faithful))) =
        true ∧
      stores.Has (.method ⟨0⟩) ∧ (stores.method ⟨0⟩).origin = .declared ∧
      (stores.method ⟨0⟩).declaring = some ⟨21⟩ ∧ (stores.type ⟨21⟩).form.definition? = none ∧
      (stores.method ⟨2⟩).origin.source? = some ⟨0⟩ ∧ (stores.method ⟨2⟩).body = none ∧
      (stores.method ⟨3⟩).origin.source? = some ⟨2⟩ ∧ (stores.method ⟨3⟩).body = none := by
    decide +kernel
  obtain ⟨_, noted, hn, hnone⟩ := exists_of_answersWith hn
  obtain ⟨code, r₁, hcode, hP⟩ := exists_of_answersWith hP
  rw [Bool.and_eq_true] at hP
  obtain ⟨_, noted₁, hn₁, hnone₁⟩ := exists_of_answersWith hP.1
  obtain ⟨code', r₂, hcode', hP⟩ := exists_of_answersWith hP.2
  obtain ⟨hlength, hfaithful⟩ := of_decide_eq_true hP
  rw [Option.isNone_iff_eq_none] at hnone hnone₁
  subst hnone hnone₁
  have hdef : stores.IsMethodDefinition ⟨0⟩ := by
    refine ⟨horigin, fun t ht => ?_⟩
    obtain rfl : ⟨21⟩ = t := Option.some.inj (hdeclaring.symm.trans ht)
    exact hhome
  have hfrom : stores.CodeFrom ⟨0⟩ ⟨2⟩ := .made .self hmember hmemberBody
  exact ⟨code, r₁, code', r₂, hcode, hcode', hlength,
    decode_seenFrom built_stores hhas hdef (.made hfrom hinstance hinstanceBody) hn hn₁ hcode hcode'
      hfaithful⟩

/-- The instance `Store<System.Int32>.Fill<System.String>` can be given a body of its own, `nop` and
`ret`, and is decoded from this one then. -/
theorem decode_own_body : ∃ r code r₁ code' r₂,
    r = stores.applyAll [.setBody ⟨3⟩ { code := [0x00, 0x2A] }] ∧ r.Built ∧ r.Faithful ∧
    (r.method ⟨0⟩).origin = .declared ∧ (r.method ⟨2⟩).origin = .memberOf ⟨0⟩ ∧
    (r.method ⟨3⟩).origin = .instanceOf ⟨2⟩ ∧ decode ⟨0⟩ r = .ok code r₁ ∧
    decode ⟨3⟩ r₁ = .ok code' r₂ ∧ r₂.Faithful ∧ code.length = 7 ∧ code'.length = 2 := by
  -- the program is named, so that it is evaluated once
  let r := stores.applyAll [.setBody ⟨3⟩ { code := [0x00, 0x2A] }]
  obtain ⟨hfits, hf, horigin, horigin₂, horigin₃, hP⟩ :
      FitAll stores [.setBody ⟨3⟩ { code := [0x00, 0x2A] }] ∧ r.Faithful ∧
      (r.method ⟨0⟩).origin = .declared ∧ (r.method ⟨2⟩).origin = .memberOf ⟨0⟩ ∧
      (r.method ⟨3⟩).origin = .instanceOf ⟨2⟩ ∧
      answersWith (decode ⟨0⟩) r (fun code r₁ => code.length = 7 &&
        answersWith (decode ⟨3⟩) r₁ (fun code' r₂ => decide (code'.length = 2 ∧ r₂.Faithful))) =
        true := by
    decide +kernel
  obtain ⟨code, r₁, hcode, hP⟩ := exists_of_answersWith hP
  rw [Bool.and_eq_true] at hP
  obtain ⟨code', r₂, hcode', hP'⟩ := exists_of_answersWith hP.2
  obtain ⟨hlength, hfaithful⟩ := of_decide_eq_true hP'
  exact ⟨r, code, r₁, code', r₂, rfl, built_stores.applyAll hfits, hf, horigin, horigin₂, horigin₃,
    hcode, hcode', hfaithful, of_decide_eq_true hP.1, hlength⟩

/-- `Store<T>` with a method `Fill<T>`, where the second `T` is of another module, and `Box<V>`.  The
method names the arrays of `Box<V>` and of `Box<W>`, which its context makes those of `Box<T>` for the
one `T` and for the other. -/
def crates : Registry :=
  core.applyAll [.addModule "App", .addModule "Lib",
    .declareType { module := ⟨1⟩, namespaceName := "", name := "Store", generic := ["T"] },
    .declareType { module := ⟨1⟩, namespaceName := "", name := "Box", generic := ["V"] },
    .addParameter ⟨2⟩ "T" 0 .method, .addParameter ⟨1⟩ "W" 0 .method,
    .instantiate ⟨23⟩ [⟨25⟩], .construct .szArray ⟨23⟩, .construct .szArray ⟨26⟩,
    .declareMethod
      { module := ⟨1⟩, name := "Fill", declaring := some ⟨21⟩, modifiers := MethodFlags.isStatic,
        genericParams := [⟨24⟩],
        body := some { code := [0xD0, 1, 0, 0, 0x1B, 0x26, 0xD0, 2, 0, 0, 0x1B, 0x26, 0x2A] } },
    .tokenFor ⟨1⟩ (.type (some ⟨27⟩)), .tokenFor ⟨1⟩ (.type (some ⟨28⟩)),
    .instantiate ⟨21⟩ [⟨12⟩], .instantiateMethod ⟨1⟩ [⟨4⟩]]

/-- A faithful program is not faithful any more after `Store<T>.Fill<T>` is decoded: the arrays that it
names are one, since both instances `Box<T>` have one key.  Seen from `Store<System.Int32>` and
`System.String` this is the array of `Box<System.Int32>`, but the instance names that of
`Box<System.String>` in the second place. -/
theorem decode_not_seenFrom : ∃ code r₁ code' r₂, crates.Built ∧ crates.Faithful ∧
    crates.IsMethodDefinition ⟨0⟩ ∧ crates.CodeFrom ⟨0⟩ ⟨2⟩ ∧ decode ⟨0⟩ crates = .ok code r₁ ∧
    ¬ r₁.Faithful ∧ decode ⟨2⟩ r₁ = .ok code' r₂ ∧
    ¬ List.Forall₂ (Instruction.SeenFrom r₂ (r₂.contextOf ⟨2⟩)) code code' := by
  obtain ⟨hfaithful, horigin, hdeclaring, hhome, hmember, hinstance, hP⟩ : crates.Faithful ∧
      (crates.method ⟨0⟩).origin = .declared ∧ (crates.method ⟨0⟩).declaring = some ⟨21⟩ ∧
      (crates.type ⟨21⟩).form.definition? = none ∧
      ((crates.method ⟨1⟩).origin.source? = some ⟨0⟩ ∧ (crates.method ⟨1⟩).body = none) ∧
      ((crates.method ⟨2⟩).origin.source? = some ⟨1⟩ ∧ (crates.method ⟨2⟩).body = none) ∧
      answersWith (decode ⟨0⟩) crates (fun code r₁ => decide (¬ r₁.Faithful) &&
        answersWith (decode ⟨2⟩) r₁ (fun code' r₂ =>
          decide ((code.map (·.operand.item?))[2]? = some (some (Item.type ⟨31⟩)) ∧
            (code'.map (·.operand.item?))[2]? = some (some (Item.type ⟨36⟩)) ∧ r₂.WellFormed) &&
          answersWith (substitute (r₂.contextOf ⟨2⟩) ⟨31⟩) r₂ (fun u _ => decide (u = ⟨34⟩)))) =
        true := by
    decide +kernel
  obtain ⟨code, r₁, hcode, hP⟩ := exists_of_answersWith hP
  rw [Bool.and_eq_true] at hP
  obtain ⟨code', r₂, hcode', hP'⟩ := exists_of_answersWith hP.2
  rw [Bool.and_eq_true] at hP'
  obtain ⟨hnames, hnames', hw⟩ := of_decide_eq_true hP'.1
  obtain ⟨u, s, hrun, hu⟩ := exists_of_answersWith hP'.2
  obtain rfl := of_decide_eq_true hu
  have hdef : crates.IsMethodDefinition ⟨0⟩ := by
    refine ⟨horigin, fun t ht => ?_⟩
    obtain rfl : ⟨21⟩ = t := Option.some.inj (hdeclaring.symm.trans ht)
    exact hhome
  have hfrom : crates.CodeFrom ⟨0⟩ ⟨1⟩ := .made .self hmember.1 hmember.2
  refine ⟨code, r₁, code', r₂, Built.core.applyAll (by decide +kernel), hfaithful, hdef,
    .made hfrom hinstance.1 hinstance.2, hcode, of_decide_eq_true hP.1, hcode', fun hseen => ?_⟩
  have hitems : List.Forall₂ (Option.Rel (Item.SeenFrom r₂ (r₂.contextOf ⟨2⟩)))
      (code.map (·.operand.item?)) (code'.map (·.operand.item?)) :=
    List.forall₂_map_left_iff.mpr (List.forall₂_map_right_iff.mpr
      (hseen.imp fun _ _ h => h.operand.item?))
  obtain ⟨hi, hiop⟩ := List.getElem?_eq_some_iff.mp hnames
  obtain ⟨hj, hjop⟩ := List.getElem?_eq_some_iff.mp hnames'
  have hthird := hitems.get hi hj
  rw [List.get_eq_getElem, List.get_eq_getElem, hiop, hjop] at hthird
  cases hthird with
  | some h =>
    cases h with
    | type h =>
      obtain ⟨s', hrun', -⟩ := h r₂ (.refl r₂) hw
      rw [hrun] at hrun'
      cases hrun'

end Registry

end ProgramScan
