import ProgramScan.Proofs.Instruction.Effects

/-!
# Short and general encodings

An abstract instruction has a general opcode and an operand, and jumps to places in the list of
instructions.  Bytes encode it in any way that can express the operand: by a short form, by a form
that fixes the operand, or by the general opcode.  How the others are encoded moves the places that
it jumps to, so displacements belong to a body and not to an instruction.

* `Command`                        abstract instructions;
* `Segment.Encodes`, `Encoding`    the bytes that encode one, and a list of them;
* `Resolves`                       the tokens of a list denote what its opcodes ask for;
* `Argument.Agree`                 operands of two encodings of one instruction;
* `Registry.decode_encodings`      two encodings of one list are decoded to instructions that agree.
-/

namespace ProgramScan

/-- true for the shapes of numbers and indices, and for no operand at all -/
def OperandKind.isPlain : OperandKind → Bool
  | .none | .shortInt | .byte | .int | .int64 | .shortFloat | .float | .shortVar | .var => true
  | _ => false

inductive Argument
  /-- nothing, a number or an index -/
  | plain (operand : Operand)
  /-- a place in the list of instructions -/
  | branch (place : Nat)
  | switch (places : List Nat)
  | token (token : Token)

/-- An abstract instruction. -/
structure Command where
  opcode : Opcode
  argument : Argument

namespace Segment

def offset (body : List Segment) (place : Nat) : Nat := (join (body.take place)).length

def offset? (body : List Segment) (place : Nat) : Option Nat :=
  body[place]?.map fun _ => offset body place

/-- The segment, one of `body` that ends at `stop`, says what the operand of an instruction is: by its
operand bytes, or by an opcode that fixes the operand. -/
inductive Says (body : List Segment) (stop : Nat) (s : Segment) : Argument → Prop
  | plain {operand : Operand} (hkind : s.opcode.operand.isPlain = true)
    (hvalue : s.value stop = operand) : Says body stop s (.plain operand)
  | branch {place : Nat} (hkind : s.opcode.operand = .shortBranch ∨ s.opcode.operand = .branch)
    (hplace : place < body.length) (htarget : s.targets stop = [(offset body place : Int)]) :
    Says body stop s (.branch place)
  | switch {places : List Nat} (hkind : s.opcode.operand = .switch)
    (hplaces : ∀ place ∈ places, place < body.length)
    (htargets : s.targets stop = places.map fun place => (offset body place : Int)) :
    Says body stop s (.switch places)
  | token {t : Token} (hkind : s.opcode.operand.isToken = true) (htoken : s.token = t) :
    Says body stop s (.token t)

/-- The segment encodes an instruction, in whatever form of the opcode. -/
structure Encodes (body : List Segment) (stop : Nat) (s : Segment) (c : Command) : Prop where
  opcode : s.opcode.general = c.opcode
  argument : s.Says body stop c.argument

inductive EncodesAll (body : List Segment) : Nat → List Segment → List Command → Prop
  | nil {start : Nat} : EncodesAll body start [] []
  | cons {start : Nat} {s : Segment} {segments : List Segment} {c : Command}
    {commands : List Command} (hfirst : s.Encodes body (start + s.size) c)
    (hrest : EncodesAll body (start + s.size) segments commands) :
    EncodesAll body start (s :: segments) (c :: commands)

end Segment

def Encoding (commands : List Command) (code : List UInt8) : Prop :=
  ∃ segments, Segment.join segments = code ∧ Segment.EncodesAll segments 0 segments commands

def Argument.token? : Argument → Option Token
  | .token t => some t
  | _ => none

/-- The tokens of a list of instructions, taken in order, denote what the opcodes ask for. -/
inductive Resolves (module : ModuleId) (ctx : GenericContext) : List Command → Registry → Prop
  | nil {r : Registry} : Resolves module ctx [] r
  | plain {c : Command} {commands : List Command} {r : Registry} (hc : c.argument.token? = none)
    (hrest : Resolves module ctx commands r) : Resolves module ctx (c :: commands) r
  | token {c : Command} {t : Token} {commands : List Command} {r r' : Registry} {found : Resolved}
    {operand : Operand} (hc : c.argument.token? = some t)
    (hfound : Registry.resolveToken module t ctx r = .ok found r')
    (hoperand : operandOf? c.opcode.operand found = some operand)
    (hrest : Resolves module ctx commands r') : Resolves module ctx (c :: commands) r

/-- The operands of two encodings of an instruction agree: jumps lead to the named places, which
stand at offsets of their own in each body. -/
inductive Argument.Agree (offset₁ offset₂ : Nat → Option Nat) : Argument → Operand → Operand → Prop
  | plain {operand : Operand} : Agree offset₁ offset₂ (.plain operand) operand operand
  | branch {place n₁ n₂ : Nat} (h₁ : offset₁ place = some n₁) (h₂ : offset₂ place = some n₂) :
    Agree offset₁ offset₂ (.branch place) (.branch n₁) (.branch n₂)
  | switch {places targets₁ targets₂ : List Nat} (h₁ : places.map offset₁ = targets₁.map some)
    (h₂ : places.map offset₂ = targets₂.map some) :
    Agree offset₁ offset₂ (.switch places) (.switch targets₁) (.switch targets₂)
  | token {t : Token} {operand : Operand} : Agree offset₁ offset₂ (.token t) operand operand

def offsetIn? (code : List Instruction) (place : Nat) : Option Nat :=
  code[place]?.map Instruction.offset

/-! ## kinds of operands -/

theorem Opcode.general_of_isToken {op : Opcode} (h : op.operand.isToken = true) :
    op.general = op := by
  have hall : ∀ op ∈ Opcode.all, op.operand.isToken = true → op.general = op := by decide +kernel
  exact hall op (Opcode.mem_all op) h

namespace Segment

variable {body : List Segment} {s : Segment} {stop : Nat} {c : Command}

theorem displacements_of_isPlain (h : s.opcode.operand.isPlain = true) : s.displacements = [] := by
  rw [displacements]
  cases hk : s.opcode.operand <;> simp_all [OperandKind.isPlain]

theorem displacements_of_isToken (h : s.opcode.operand.isToken = true) : s.displacements = [] := by
  rw [displacements]
  cases hk : s.opcode.operand <;> simp_all [OperandKind.isToken]

theorem isToken_of_isPlain (h : s.opcode.operand.isPlain = true) :
    s.opcode.operand.isToken = false := by
  cases hk : s.opcode.operand <;> simp_all [OperandKind.isPlain, OperandKind.isToken]

/-! ## places -/

theorem join_append (segments segments' : List Segment) :
    join (segments ++ segments') = join segments ++ join segments' := List.flatMap_append

/-- segments start before the end of the body -/
theorem offset_lt {place : Nat} (h : place < body.length) : offset body place < (join body).length := by
  have hsplit : join body = join (body.take place) ++ join (body.drop place) := by
    rw [← join_append, List.take_append_drop]
  have hpos := (body[place]).size_pos
  rw [hsplit, List.drop_eq_getElem_cons h, join_cons, List.length_append, List.length_append, offset]
  rw [size] at hpos
  omega

theorem offset?_of_lt {place : Nat} (h : place < body.length) :
    offset? body place = some (offset body place) := by
  rw [offset?, List.getElem?_eq_getElem h]
  rfl

theorem Encodes.inside (h : s.Encodes body stop c) :
    ∀ target ∈ s.targets stop, 0 ≤ target ∧ target < (join body).length := by
  obtain ⟨-, hsays⟩ := h
  generalize c.argument = argument at hsays
  cases hsays with
  | plain hkind => simp [targets, displacements_of_isPlain hkind]
  | token hkind => simp [targets, displacements_of_isToken hkind]
  | branch hkind hplace htarget =>
    have := offset_lt hplace
    simp only [htarget, List.mem_singleton, forall_eq]
    omega
  | switch hkind hplaces htargets =>
    rw [htargets]
    intro target ht
    obtain ⟨place, hp, rfl⟩ := List.mem_map.mp ht
    have := offset_lt (hplaces place hp)
    omega

theorem EncodesAll.inside {start : Nat} {segments : List Segment} {commands : List Command}
    (h : EncodesAll body start segments commands) : Inside (join body).length start segments := by
  induction h with
  | nil => trivial
  | cons hfirst _ ih => exact ⟨hfirst.inside, ih⟩

theorem EncodesAll.length_eq {start : Nat} {segments : List Segment} {commands : List Command}
    (h : EncodesAll body start segments commands) : segments.length = commands.length := by
  induction h with
  | nil => rfl
  | cons _ _ ih => rw [List.length_cons, List.length_cons, ih]

theorem getElem?_offset {ctx : DecodeContext} {start : Nat} {segments : List Segment}
    {operands : List Operand} {r r' : Registry} (h : Operands ctx start segments r operands r')
    (regions : List Region) (place : Nat) :
    (instructions regions start segments operands)[place]?.map Instruction.offset =
      segments[place]?.map fun _ => start + offset segments place := by
  induction h generalizing place with
  | nil => rfl
  | @cons start s segments _ _ _ _ _ _ _ ih =>
    rw [instructions]
    cases place with
    | zero => rfl
    | succ place =>
      rw [List.getElem?_cons_succ, List.getElem?_cons_succ, ih place]
      congr 1
      funext _
      rw [offset, offset, List.take_succ_cons, join_cons, List.length_append, size]
      omega

theorem offsetIn?_instructions {ctx : DecodeContext} {operands : List Operand} {r r' : Registry}
    (h : Operands ctx 0 body r operands r') :
    offsetIn? (instructions [] 0 body operands) = offset? body := by
  funext place
  rw [offsetIn?, getElem?_offset h, offset?]
  simp only [Nat.zero_add]

/-! ## operands -/

/-- the operand of an encoded instruction that jumps -/
theorem value_of_targets {n : Nat} (hkind : s.opcode.operand = .shortBranch ∨ s.opcode.operand = .branch)
    (ht : s.targets stop = [(n : Int)]) : s.value stop = .branch n := by
  rcases hkind with hkind | hkind <;>
    simp only [targets, displacements, hkind, List.map_cons, List.map_nil, List.cons.injEq, and_true]
      at ht <;>
    simp only [value, hkind, ht, Int.toNat_natCast]

theorem value_of_table {places : List Nat} {offset : Nat → Nat} (hkind : s.opcode.operand = .switch)
    (ht : s.targets stop = places.map fun place => (offset place : Int)) :
    s.value stop = .switch (places.map offset) := by
  simp only [value, hkind, ht, List.map_map]
  rfl

theorem isToken_of_isBranch (h : s.opcode.operand = .shortBranch ∨ s.opcode.operand = .branch) :
    s.opcode.operand.isToken = false := by
  rcases h with h | h <;> rw [h] <;> rfl

theorem isToken_of_isSwitch (h : s.opcode.operand = .switch) : s.opcode.operand.isToken = false := by
  rw [h]
  rfl

theorem map_offset? {places : List Nat} (h : ∀ place ∈ places, place < body.length) :
    places.map (offset? body) = (places.map (offset body)).map some := by
  rw [List.map_map]
  exact List.map_congr_left fun place hp => offset?_of_lt (h place hp)

end Segment

/-- the tokens that follow an instruction without token -/
theorem Resolves.tail {module : ModuleId} {ctx : GenericContext} {c : Command}
    {commands : List Command} {r : Registry} (h : Resolves module ctx (c :: commands) r)
    (hc : c.argument.token? = none) : Resolves module ctx commands r := by
  cases h with
  | plain _ hrest => exact hrest
  | token ht => exact absurd (ht.symm.trans hc) (by simp)

section
variable {ctx₁ ctx₂ : DecodeContext} {body₁ body₂ : List Segment} {r₁ r₂ : Registry}
  {s₁ s₂ : Segment} {stop₁ stop₂ : Nat} {c : Command} {commands : List Command}

/-- Two encodings of an instruction denote operands that agree, in programs that are the same when
bare. -/
theorem exists_denotes (hmodule : ctx₁.module = ctx₂.module)
    (hgeneric : ctx₁.generic = ctx₂.generic) (h₁ : s₁.Encodes body₁ stop₁ c)
    (h₂ : s₂.Encodes body₂ stop₂ c) (hbare : r₁.bare = r₂.bare)
    (hresolves : Resolves ctx₁.module ctx₁.generic (c :: commands) r₁) :
    ∃ operand₁ t₁ operand₂ t₂, s₁.Denotes ctx₁ stop₁ r₁ operand₁ t₁ ∧
      s₂.Denotes ctx₂ stop₂ r₂ operand₂ t₂ ∧ t₁.bare = t₂.bare ∧
      c.argument.Agree (Segment.offset? body₁) (Segment.offset? body₂) operand₁ operand₂ ∧
      Resolves ctx₁.module ctx₁.generic commands t₁ := by
  obtain ⟨hop₁, hsays₁⟩ := h₁
  obtain ⟨hop₂, hsays₂⟩ := h₂
  obtain ⟨op, argument⟩ := c
  cases hsays₁ with
  | plain hkind₁ hvalue₁ =>
    cases hsays₂ with
    | plain hkind₂ hvalue₂ =>
      refine ⟨_, r₁, _, r₂, .plain (Segment.isToken_of_isPlain hkind₁),
        .plain (Segment.isToken_of_isPlain hkind₂), hbare, ?_, hresolves.tail rfl⟩
      rw [hvalue₁, hvalue₂]
      exact .plain
  | branch hkind₁ hplace₁ htarget₁ =>
    cases hsays₂ with
    | branch hkind₂ hplace₂ htarget₂ =>
      refine ⟨_, r₁, _, r₂, .plain (Segment.isToken_of_isBranch hkind₁),
        .plain (Segment.isToken_of_isBranch hkind₂), hbare, ?_, hresolves.tail rfl⟩
      rw [Segment.value_of_targets hkind₁ htarget₁, Segment.value_of_targets hkind₂ htarget₂]
      exact .branch (Segment.offset?_of_lt hplace₁) (Segment.offset?_of_lt hplace₂)
  | switch hkind₁ hplaces₁ htargets₁ =>
    cases hsays₂ with
    | switch hkind₂ hplaces₂ htargets₂ =>
      refine ⟨_, r₁, _, r₂, .plain (Segment.isToken_of_isSwitch hkind₁),
        .plain (Segment.isToken_of_isSwitch hkind₂), hbare, ?_, hresolves.tail rfl⟩
      rw [Segment.value_of_table hkind₁ htargets₁, Segment.value_of_table hkind₂ htargets₂]
      exact .switch (Segment.map_offset? hplaces₁) (Segment.map_offset? hplaces₂)
  | token hkind₁ htoken₁ =>
    cases hsays₂ with
    | token hkind₂ htoken₂ =>
      cases hresolves with
      | plain hc => cases hc
      | token hc hfound hoperand hrest =>
        cases hc
        obtain ⟨t₂, hfound₂, hbare'⟩ := (Registry.blind_resolveToken _ _ _).run hbare hfound
        -- no form of an opcode with a token is short
        rw [Opcode.general_of_isToken hkind₁] at hop₁
        rw [Opcode.general_of_isToken hkind₂] at hop₂
        refine ⟨_, _, _, t₂, .token hkind₁ (by rwa [htoken₁]) (by rwa [hop₁]), ?_, hbare', .token,
          hrest⟩
        rw [hmodule, hgeneric] at hfound₂
        exact .token hkind₂ (by rwa [htoken₂]) (by rwa [hop₂])

/-- Two encodings of a list of instructions have operands that agree, place by place. -/
theorem exists_operands (hmodule : ctx₁.module = ctx₂.module)
    (hgeneric : ctx₁.generic = ctx₂.generic) {start₁ start₂ : Nat} {segments₁ segments₂ : List Segment}
    (h₁ : Segment.EncodesAll body₁ start₁ segments₁ commands)
    (h₂ : Segment.EncodesAll body₂ start₂ segments₂ commands) (hbare : r₁.bare = r₂.bare)
    (hresolves : Resolves ctx₁.module ctx₁.generic commands r₁) :
    ∃ operands₁ t₁ operands₂ t₂, Operands ctx₁ start₁ segments₁ r₁ operands₁ t₁ ∧
      Operands ctx₂ start₂ segments₂ r₂ operands₂ t₂ ∧ t₁.bare = t₂.bare ∧
      ∀ (place : Nat) (c : Command), commands[place]? = some c → ∃ i₁ i₂ : Instruction,
        (Segment.instructions [] start₁ segments₁ operands₁)[place]? = some i₁ ∧
        (Segment.instructions [] start₂ segments₂ operands₂)[place]? = some i₂ ∧
        i₁.opcode = c.opcode ∧ i₂.opcode = c.opcode ∧
        c.argument.Agree (Segment.offset? body₁) (Segment.offset? body₂) i₁.operand i₂.operand := by
  induction h₁ generalizing start₂ segments₂ r₁ r₂ with
  | nil =>
    cases h₂
    exact ⟨[], r₁, [], r₂, .nil, .nil, hbare, by simp⟩
  | @cons start₁ s₁ segments₁ c commands hfirst₁ _ ih =>
    cases h₂ with
    | @cons _ s₂ segments₂ _ _ hfirst₂ hrest₂ =>
      obtain ⟨operand₁, u₁, operand₂, u₂, hd₁, hd₂, hbare', hagree, htail⟩ :=
        exists_denotes hmodule hgeneric hfirst₁ hfirst₂ hbare hresolves
      obtain ⟨operands₁, t₁, operands₂, t₂, ho₁, ho₂, hbare'', hall⟩ := ih hrest₂ hbare' htail
      refine ⟨_, t₁, _, t₂, .cons hd₁ ho₁, .cons hd₂ ho₂, hbare'', fun place c' hc => ?_⟩
      cases place with
      | zero =>
        cases hc
        exact ⟨_, _, rfl, rfl, hfirst₁.opcode, hfirst₂.opcode, hagree⟩
      | succ place => exact hall place c' hc

end

/-! ## bodies -/

/-- what two operands that agree say of the stack -/
theorem Argument.Agree.untargeted {offset₁ offset₂ : Nat → Option Nat} {argument : Argument}
    {operand₁ operand₂ : Operand} (h : argument.Agree offset₁ offset₂ operand₁ operand₂) :
    operand₁.untargeted = operand₂.untargeted := by
  cases h <;> rfl

theorem offsetIn?_map_unstacked (code : List Instruction) :
    offsetIn? (code.map Instruction.unstacked) = offsetIn? code := by
  funext place
  rw [offsetIn?, offsetIn?, List.getElem?_map, Option.map_map]
  rfl

/-- what holds of the elements at each place -/
theorem forall₂_of_getElem? {α β : Type} {R : α → β → Prop} {as : List α} {bs : List β}
    (hlength : as.length = bs.length)
    (h : ∀ (place : Nat) (a : α) (b : β), as[place]? = some a → bs[place]? = some b → R a b) :
    List.Forall₂ R as bs :=
  List.forall₂_iff_get.mpr ⟨hlength, fun place ha hb =>
    h place _ _ (List.getElem?_eq_getElem ha) (List.getElem?_eq_getElem hb)⟩

theorem rel_of_forall₂ {α β : Type} {R : α → β → Prop} {as : List α} {bs : List β}
    (h : List.Forall₂ R as bs) {place : Nat} {a : α} {b : β} (ha : as[place]? = some a)
    (hb : bs[place]? = some b) : R a b := by
  obtain ⟨hlta, rfl⟩ := List.getElem?_eq_some_iff.mp ha
  obtain ⟨hltb, rfl⟩ := List.getElem?_eq_some_iff.mp hb
  exact (List.forall₂_iff_get.mp h).2 place hlta hltb

theorem exists_getElem?_of_unstacked {code code₀ : List Instruction}
    (h : code.map Instruction.unstacked = code₀) {place : Nat} {j : Instruction}
    (hj : code₀[place]? = some j) : ∃ i, code[place]? = some i ∧ i.unstacked = j := by
  rw [← h, List.getElem?_map] at hj
  exact Option.map_eq_some_iff.mp hj

/-- the tokens of instructions denote the same in programs that are the same when bare -/
theorem Resolves.of_bare {module : ModuleId} {ctx : GenericContext} {commands : List Command}
    {r s : Registry} (h : Resolves module ctx commands r) (hbare : r.bare = s.bare) :
    Resolves module ctx commands s := by
  induction h generalizing s with
  | nil => exact .nil
  | plain hc _ ih => exact .plain hc (ih hbare)
  | token hc hfound hoperand _ ih =>
    obtain ⟨s', hfound', hbare'⟩ := (Registry.blind_resolveToken _ _ _).run hbare hfound
    exact .token hc hfound' hoperand (ih hbare')

namespace Registry

section
variable {r₁ r₂ : Registry} (h : r₁.bare = r₂.bare)
include h

theorem declaring_eq_of_bare (m : MethodId) :
    (r₁.method m).declaring = (r₂.method m).declaring := by
  have hm := congrArg (fun r => (r.method m).declaring) h
  simp only [method_bare] at hm
  exact hm

theorem contextOf_eq_of_bare (m : MethodId) : r₁.contextOf m = r₂.contextOf m := by
  rw [← contextOf_bare, h, contextOf_bare]

theorem type_eq_of_bare (t : TypeId) : r₁.type t = r₂.type t := congrArg (fun r => r.type t) h

end

/-- Code that an encoding is decoded to, given what its operands denote: it has the offsets of the
segments, and the opcodes and operands of the instructions without stack effects. -/
theorem exists_decode {r noted t out : Registry} {m : MethodId} {declaring : TypeId} {body : Body}
    (hn : replacement? m r = .ok none noted) (hd : (r.method m).declaring = some declaring)
    (hb : r.body? m = some body) (hregions : body.regions = []) {segments : List Segment}
    {commands : List Command} (hjoin : Segment.join segments = body.code)
    (hencodes : Segment.EncodesAll segments 0 segments commands) {operands : List Operand}
    (hoperands : Operands (r.bodyContext m declaring body) 0 segments noted operands t)
    {code : List Instruction}
    (hstack : (liftM (withStackEffects m (Segment.instructions [] 0 segments operands)) :
      Action (List Instruction)) t = .ok code out) :
    decode m r = .ok code out ∧ code.length = commands.length ∧
      code.map Instruction.unstacked = Segment.instructions [] 0 segments operands ∧
      Segment.offset? segments = offsetIn? code := by
  have hcode : code.map Instruction.unstacked = Segment.instructions [] 0 segments operands := by
    rw [map_unstacked_of_withStackEffects hstack, Segment.map_unstacked_instructions]
  refine ⟨(decode_eq_ok_iff hn hd hb).mpr ⟨_, t, ⟨segments, operands, hjoin.symm, ?_, hoperands, rfl⟩,
    ?_⟩, ?_, hcode, ?_⟩
  · have hinside := hencodes.inside
    rw [hjoin] at hinside
    exact hinside
  · rw [hregions]
    exact hstack
  · rw [← List.length_map Instruction.unstacked, hcode, Segment.length_instructions hoperands,
      hencodes.length_eq]
  · rw [← Segment.offsetIn?_instructions hoperands, ← hcode, offsetIn?_map_unstacked]

/-- **Short and general encodings are interchangeable.**  Two programs are the same but for code, and
nothing stands in for the code of `m`, which encodes one list of instructions in each of them.  If
the tokens of the list resolve, `m` can be decoded in both, to as many instructions as the list has.
They agree place by place in opcode, stack effect and operand, and jumps lead to the offsets that
the named places have in each body. -/
theorem decode_encodings {r₁ r₂ noted₁ noted₂ : Registry} (hbare : r₁.bare = r₂.bare)
    {m : MethodId} (hn₁ : replacement? m r₁ = .ok none noted₁)
    (hn₂ : replacement? m r₂ = .ok none noted₂) {declaring : TypeId}
    (hd : (r₁.method m).declaring = some declaring) {body₁ body₂ : Body}
    (hb₁ : r₁.body? m = some body₁) (hb₂ : r₂.body? m = some body₂)
    (hregions₁ : body₁.regions = []) (hregions₂ : body₂.regions = []) {commands : List Command}
    (hcode₁ : Encoding commands body₁.code) (hcode₂ : Encoding commands body₂.code)
    (hresolves : Resolves (r₁.type declaring).module (r₁.contextOf m) commands r₁) :
    ∃ code₁ s₁ code₂ s₂, decode m r₁ = .ok code₁ s₁ ∧ decode m r₂ = .ok code₂ s₂ ∧
      s₁.bare = s₂.bare ∧ code₁.length = commands.length ∧ code₂.length = commands.length ∧
      ∀ (place : Nat) (c : Command), commands[place]? = some c → ∃ i₁ i₂ : Instruction,
        code₁[place]? = some i₁ ∧ code₂[place]? = some i₂ ∧
        i₁.opcode = c.opcode ∧ i₂.opcode = c.opcode ∧ i₁.stack = i₂.stack ∧
        c.argument.Agree (offsetIn? code₁) (offsetIn? code₂) i₁.operand i₂.operand := by
  obtain ⟨segments₁, hjoin₁, he₁⟩ := hcode₁
  obtain ⟨segments₂, hjoin₂, he₂⟩ := hcode₂
  have hnoted₁ : r₁.bare = noted₁.bare := bare_of_forget (forget_of_replacement?_none hn₁).symm
  have hnoted₂ : r₂.bare = noted₂.bare := bare_of_forget (forget_of_replacement?_none hn₂).symm
  have hnoted : noted₁.bare = noted₂.bare := hnoted₁.symm.trans (hbare.trans hnoted₂)
  have hd₂ : (r₂.method m).declaring = some declaring := by rw [← declaring_eq_of_bare hbare, hd]
  -- the two bodies are decoded against contexts that differ in the length of the body only
  let ctx₁ := r₁.bodyContext m declaring body₁
  let ctx₂ := r₂.bodyContext m declaring body₂
  have hmodule : ctx₁.module = ctx₂.module := congrArg TypeDecl.module (type_eq_of_bare hbare declaring)
  have hgeneric : ctx₁.generic = ctx₂.generic := contextOf_eq_of_bare hbare m
  obtain ⟨operands₁, t₁, operands₂, t₂, ho₁, ho₂, ht, hplaces⟩ :=
    exists_operands hmodule hgeneric he₁ he₂ hnoted (hresolves.of_bare hnoted₁)
  have hakin : List.Forall₂ Instruction.Akin (Segment.instructions [] 0 segments₁ operands₁)
      (Segment.instructions [] 0 segments₂ operands₂) := by
    refine forall₂_of_getElem? ?_ fun place j₁ j₂ hj₁ hj₂ => ?_
    · rw [Segment.length_instructions ho₁, Segment.length_instructions ho₂, he₁.length_eq,
        he₂.length_eq]
    · have hlt := (List.getElem?_eq_some_iff.mp hj₁).1
      rw [Segment.length_instructions ho₁, he₁.length_eq] at hlt
      obtain ⟨i₁, i₂, hi₁, hi₂, hop₁, hop₂, hagree⟩ :=
        hplaces place _ (List.getElem?_eq_getElem hlt)
      obtain rfl := Option.some.inj (hi₁.symm.trans hj₁)
      obtain rfl := Option.some.inj (hi₂.symm.trans hj₂)
      exact ⟨hop₁.trans hop₂.symm, hagree.untargeted⟩
  have hstack₁ := lift_apply (withStackEffects m (Segment.instructions [] 0 segments₁ operands₁)) t₁
  obtain ⟨code₂, s₂, hstack₂, hs, hstacks⟩ := withStackEffects_akin hakin ht hstack₁
  obtain ⟨hdecode₁, hlength₁, hcode₁, hoffset₁⟩ :=
    exists_decode hn₁ hd hb₁ hregions₁ hjoin₁ he₁ ho₁ hstack₁
  obtain ⟨hdecode₂, hlength₂, hcode₂, hoffset₂⟩ :=
    exists_decode hn₂ hd₂ hb₂ hregions₂ hjoin₂ he₂ ho₂ hstack₂
  refine ⟨_, _, code₂, s₂, hdecode₁, hdecode₂, hs, hlength₁, hlength₂, fun place c hc => ?_⟩
  obtain ⟨j₁, j₂, hj₁, hj₂, hop₁, hop₂, hagree⟩ := hplaces place c hc
  obtain ⟨i₁, hi₁, rfl⟩ := exists_getElem?_of_unstacked hcode₁ hj₁
  obtain ⟨i₂, hi₂, rfl⟩ := exists_getElem?_of_unstacked hcode₂ hj₂
  rw [hoffset₁, hoffset₂] at hagree
  exact ⟨i₁, i₂, hi₁, hi₂, hop₁, hop₂, rel_of_forall₂ hstacks hi₁ hi₂, hagree⟩

/-! ## a table, a call and a way back -/

def calling (code : List UInt8) : Registry where
  types := #[
    { module := ⟨0⟩, name := "Program", form := .defined .reference [], fullName := "Program",
      methods := [⟨0⟩] }]
  methods := #[
    { name := "Main", modifiers := MethodFlags.isStatic, declaring := some ⟨0⟩, returnType := ⟨0⟩,
      body := some { code } }]
  modules := #[
    { name := "Program", types := [⟨0⟩],
      tokens := ⟨[(⟨0x06000001⟩, .method (some ⟨0⟩))]⟩ }]

theorem bare_calling (code code' : List UInt8) : (calling code).bare = (calling code').bare := by
  simp [bare, calling, Method.codeless, Body.codeless]

def callingCommands : List Command :=
  [⟨.ldcI4, .plain (.int (-1))⟩, ⟨.switch, .switch [3, 0]⟩, ⟨.call, .token ⟨0x06000001⟩⟩,
    ⟨.br, .branch 0⟩, ⟨.ret, .plain .none⟩]

def callingShort : List Segment :=
  [⟨.ldcI4M1, [], rfl⟩,
    ⟨.switch, [2, 0, 0, 0, 5, 0, 0, 0, 0xF2, 0xFF, 0xFF, 0xFF],
      ⟨[2, 0, 0, 0], [5, 0, 0, 0, 0xF2, 0xFF, 0xFF, 0xFF], rfl, rfl, rfl⟩⟩,
    ⟨.call, [1, 0, 0, 6], rfl⟩, ⟨.brS, [0xEB], rfl⟩, ⟨.ret, [], rfl⟩]

def callingLong : List Segment :=
  [⟨.ldcI4, [0xFF, 0xFF, 0xFF, 0xFF], rfl⟩,
    ⟨.switch, [2, 0, 0, 0, 5, 0, 0, 0, 0xEE, 0xFF, 0xFF, 0xFF],
      ⟨[2, 0, 0, 0], [5, 0, 0, 0, 0xEE, 0xFF, 0xFF, 0xFF], rfl, rfl, rfl⟩⟩,
    ⟨.call, [1, 0, 0, 6], rfl⟩, ⟨.br, [0xE4, 0xFF, 0xFF, 0xFF], rfl⟩, ⟨.ret, [], rfl⟩]

theorem encodesAll_callingShort :
    Segment.EncodesAll callingShort 0 callingShort callingCommands :=
  .cons ⟨rfl, .plain rfl rfl⟩ <| .cons ⟨rfl, .switch rfl (by decide) (by decide +kernel)⟩ <|
    .cons ⟨rfl, .token rfl rfl⟩ <| .cons ⟨rfl, .branch (.inl rfl) (by decide) (by decide +kernel)⟩ <|
    .cons ⟨rfl, .plain rfl rfl⟩ .nil

theorem encodesAll_callingLong :
    Segment.EncodesAll callingLong 0 callingLong callingCommands :=
  .cons ⟨rfl, .plain rfl (congrArg Operand.int (by decide +kernel))⟩ <|
    .cons ⟨rfl, .switch rfl (by decide) (by decide +kernel)⟩ <|
    .cons ⟨rfl, .token rfl rfl⟩ <| .cons ⟨rfl, .branch (.inr rfl) (by decide) (by decide +kernel)⟩ <|
    .cons ⟨rfl, .plain rfl rfl⟩ .nil

/-- the last jump goes back to the start from other offsets -/
theorem decode_encodings_calling : ∃ code₁ s₁ code₂ s₂,
    decode ⟨0⟩ (calling (Segment.join callingShort)) = .ok code₁ s₁ ∧
    decode ⟨0⟩ (calling (Segment.join callingLong)) = .ok code₂ s₂ ∧
    (Segment.join callingShort).length = 22 ∧ (Segment.join callingLong).length = 29 ∧
    code₁.length = 5 ∧ code₂.length = 5 ∧
    ∀ (place : Nat) (c : Command), callingCommands[place]? = some c → ∃ i₁ i₂ : Instruction,
      code₁[place]? = some i₁ ∧ code₂[place]? = some i₂ ∧
      i₁.opcode = c.opcode ∧ i₂.opcode = c.opcode ∧ i₁.stack = i₂.stack ∧
      c.argument.Agree (offsetIn? code₁) (offsetIn? code₂) i₁.operand i₂.operand := by
  let r₁ := calling (Segment.join callingShort)
  let r₂ := calling (Segment.join callingLong)
  have hresolves : Resolves ⟨0⟩ (r₁.contextOf ⟨0⟩) callingCommands r₁ :=
    .plain rfl <| .plain rfl <| .token rfl rfl rfl <| .plain rfl <| .plain rfl .nil
  obtain ⟨code₁, s₁, code₂, s₂, h₁, h₂, -, hlength₁, hlength₂, h⟩ :=
    decode_encodings (bare_calling _ _)
      (show replacement? ⟨0⟩ r₁ = .ok none r₁ from rfl)
      (show replacement? ⟨0⟩ r₂ = .ok none r₂ from rfl)
      (show (r₁.method ⟨0⟩).declaring = some ⟨0⟩ from rfl)
      (show r₁.body? ⟨0⟩ = some { code := Segment.join callingShort } from rfl)
      (show r₂.body? ⟨0⟩ = some { code := Segment.join callingLong } from rfl) rfl rfl
      ⟨_, rfl, encodesAll_callingShort⟩ ⟨_, rfl, encodesAll_callingLong⟩ hresolves
  exact ⟨code₁, s₁, code₂, s₂, h₁, h₂, rfl, rfl, hlength₁, hlength₂, h⟩

end Registry

end ProgramScan
