import ProgramScan.Proofs.Instruction.Decoding

/-!
# Decoding the body of a method

A method that no other code stands in for is decoded exactly if its body can be cut into segments
whose targets are offsets of the body and whose tokens, taken in order, denote what their opcodes ask
for.  There is only one such cut.  Each segment gives one instruction, and the instructions tile the
body (`Registry.decode_iff_segments`).
-/

namespace ProgramScan

def Instruction.unstacked (i : Instruction) : Instruction := { i with stack := {} }

/-- instructions follow each other without gap or overlap from `start` to `stop` -/
def Instruction.Tile : Nat → Nat → List Instruction → Prop
  | start, stop, [] => start = stop
  | start, stop, i :: rest => i.offset = start ∧ start < i.next ∧ Tile i.next stop rest

theorem Instruction.tile_map_unstacked {start stop : Nat} {code : List Instruction} :
    Tile start stop (code.map unstacked) ↔ Tile start stop code := by
  induction code generalizing start with
  | nil => exact Iff.rfl
  | cons i code ih =>
    rw [List.map_cons, Tile, Tile, ← ih]
    exact Iff.rfl

namespace Segment

variable {ctx : DecodeContext} {start : Nat} {segments : List Segment} {operands : List Operand}
  {r r' : Registry}

theorem length_instructions (h : Operands ctx start segments r operands r')
    (regions : List Region) :
    (instructions regions start segments operands).length = segments.length := by
  induction h with
  | nil => rfl
  | cons _ _ ih => rw [instructions, List.length_cons, ih, List.length_cons]

theorem tile_instructions (h : Operands ctx start segments r operands r')
    (regions : List Region) :
    Instruction.Tile start (start + (join segments).length)
      (instructions regions start segments operands) := by
  induction h with
  | nil => rfl
  | @cons start s segments _ _ _ _ _ _ _ ih =>
    have hsize := s.size_pos
    rw [instructions, join_cons, List.length_append, ← Nat.add_assoc]
    exact ⟨rfl, by show start < start + s.size; omega, ih⟩

theorem map_unstacked_instructions (regions : List Region) (start : Nat)
    (segments : List Segment) (operands : List Operand) :
    (instructions regions start segments operands).map Instruction.unstacked =
      instructions regions start segments operands := by
  induction segments generalizing start operands with
  | nil => simp [instructions]
  | cons s segments ih =>
    cases operands with
    | nil => simp [instructions]
    | cons operand operands =>
      rw [instructions, List.map_cons, ih]
      rfl

end Segment

namespace Registry

/-! ## stack effects -/

theorem unstacked_of_withStackEffect {m : MethodId} {locals : List TypeId} {i i' : Instruction}
    {r r' : Registry} (h : (liftM (withStackEffect m locals i) : Action Instruction) r = .ok i' r') :
    i'.unstacked = i.unstacked := by
  rw [withStackEffect, lift_bind] at h
  obtain ⟨stack, s, -, h⟩ := bind_eq_ok_iff.mp h
  obtain ⟨rfl, -⟩ := pure_eq_ok_iff.mp h
  rfl

theorem map_unstacked_of_mapM {m : MethodId} {locals : List TypeId} {code code' : List Instruction}
    {r r' : Registry}
    (h : (code.mapM fun i => (liftM (withStackEffect m locals i) : Action Instruction)) r =
      .ok code' r') :
    code'.map Instruction.unstacked = code.map Instruction.unstacked := by
  induction code generalizing code' r r' with
  | nil =>
    obtain ⟨rfl, -⟩ := pure_eq_ok_iff.mp h
    rfl
  | cons i code ih =>
    rw [List.mapM_cons] at h
    obtain ⟨i', s, hi, h⟩ := bind_eq_ok_iff.mp h
    obtain ⟨rest, s', hrest, h⟩ := bind_eq_ok_iff.mp h
    obtain ⟨rfl, -⟩ := pure_eq_ok_iff.mp h
    rw [List.map_cons, List.map_cons, unstacked_of_withStackEffect hi, ih hrest]

/-- stack effects change nothing else -/
theorem map_unstacked_of_withStackEffects {m : MethodId} {code code' : List Instruction}
    {r r' : Registry}
    (h : (liftM (withStackEffects m code) : Action (List Instruction)) r = .ok code' r') :
    code'.map Instruction.unstacked = code.map Instruction.unstacked := by
  rw [withStackEffects_eq] at h
  obtain ⟨_, s, -, h⟩ := bind_eq_ok_iff.mp h
  obtain ⟨_, s', -, h⟩ := bind_eq_ok_iff.mp h
  exact map_unstacked_of_mapM h

/-! ## methods that no other code stands in for -/

/-- if the operation finds nothing, it changes nothing but names in use -/
def LeavesNone {α : Type} (act : Action (Option α)) (r : Registry) : Prop :=
  ∀ r', act r = .ok none r' → ∃ ts, r' = r.useNames ts

section
variable {α : Type} {r : Registry}

theorem leavesNone_pure (found : Option α) : LeavesNone (pure found) r := by
  intro r' h
  obtain ⟨-, rfl⟩ := pure_eq_ok_iff.mp h
  exact ⟨[], rfl⟩

theorem leavesNone_throw (e : Error) : LeavesNone (throw e : Action (Option α)) r := by
  intro r' h
  cases h

theorem leavesNone_some (act : Action α) : LeavesNone (act >>= fun a => pure (some a)) r := by
  intro r' h
  obtain ⟨found, s, -, h⟩ := bind_eq_ok_iff.mp h
  obtain ⟨hnone, -⟩ := pure_eq_ok_iff.mp h
  cases hnone

theorem leavesNone_get {k : Registry → Action (Option α)} (h : LeavesNone (k r) r) :
    LeavesNone (get >>= k) r := h

theorem leavesNone_noting {uses : Registry → List TypeId} {k : Unit → Action (Option α)}
    (hk : ∀ s, LeavesNone (k ()) s) :
    LeavesNone ((modify fun r => r.useNames (uses r) : Action Unit) >>= k) r := by
  intro r' h
  obtain ⟨ts, rfl⟩ := hk (r.useNames (uses r)) r' h
  exact ⟨_, useNames_useNames r _ ts⟩

end

theorem leavesNone_facadeReplacement (m : MethodId) (r : Registry) :
    LeavesNone (facadeReplacement m) r := by
  refine leavesNone_get ?_
  split
  · exact leavesNone_throw _
  · refine leavesNone_noting fun s => ?_
    split
    · exact leavesNone_pure _
    · split <;> exact leavesNone_pure _
    · exact leavesNone_throw _

/-- finding out that nothing stands in for a method changes nothing but names in use -/
theorem leavesNone_replacement? (m : MethodId) (r : Registry) : LeavesNone (replacement? m) r := by
  refine leavesNone_get ?_
  dsimp only
  split
  · exact leavesNone_pure _
  · split
    · exact leavesNone_facadeReplacement m r
    split
    · exact leavesNone_some _
    split
    · exact leavesNone_some _
    split
    · exact leavesNone_some _
    split
    · exact leavesNone_some _
    split
    · exact leavesNone_some _
    · exact leavesNone_pure _

theorem forget_of_replacement?_none {r r' : Registry} {m : MethodId}
    (h : replacement? m r = .ok none r') : r'.forget = r.forget := by
  obtain ⟨ts, rfl⟩ := leavesNone_replacement? m r r' h
  rfl

/-! ## whole bodies -/

def bodyContext (r : Registry) (m : MethodId) (declaring : TypeId) (body : Body) : DecodeContext :=
  { method := m, module := (r.type declaring).module, generic := r.contextOf m,
    size := body.code.length }

theorem bodyWithin_useNames (r : Registry) (ts : List TypeId) (steps : Nat) (m : MethodId) :
    (r.useNames ts).bodyWithin steps m = r.bodyWithin steps m := by
  induction steps generalizing m with
  | zero => rfl
  | succ steps ih =>
    have hmethod : (r.useNames ts).method m = r.method m := rfl
    rw [bodyWithin, bodyWithin, hmethod]
    simp only [ih]

section
variable {r r₀ r' : Registry} {m : MethodId} {declaring : TypeId} {body : Body}
  {code : List Instruction}

theorem decodeAs_eq_ok_iff {module : ModuleId} : decodeAs m module body r = .ok code r' ↔
    ∃ code₀ r₁, Segmented ⟨m, module, r.contextOf m, body.code.length⟩ body.regions
      (Reader.ofBytes body.code) r code₀ r₁ ∧
      (liftM (withStackEffects m code₀) : Action (List Instruction)) r₁ = .ok code r' := by
  show (decodeBody ⟨m, module, r.contextOf m, body.code.length⟩ body >>= fun code₀ =>
    (liftM (withStackEffects m code₀) : Action (List Instruction))) r = _ ↔ _
  rw [bind_eq_ok_iff]
  refine exists_congr fun code₀ => exists_congr fun r₁ => and_congr_left fun _ => ?_
  exact decodeFrom_eq_ok_iff (Nat.le_refl _)

theorem decode_eq_ok_iff (hn : replacement? m r = .ok none r₀)
    (hd : (r.method m).declaring = some declaring) (hb : r.body? m = some body) :
    decode m r = .ok code r' ↔ ∃ code₀ r₁,
      Segmented (r.bodyContext m declaring body) body.regions (Reader.ofBytes body.code) r₀ code₀ r₁ ∧
      (liftM (withStackEffects m code₀) : Action (List Instruction)) r₁ = .ok code r' := by
  obtain ⟨ts, rfl⟩ := leavesNone_replacement? m r r₀ hn
  have hdecode : decode m r = decodeAs m (r.type declaring).module body (r.useNames ts) := by
    rw [decode, bind_apply, hn]
    dsimp only
    rw [get_bind_apply]
    have hd₀ : ((r.useNames ts).method m).declaring = some declaring := hd
    have hb₀ : (r.useNames ts).body? m = some body := (bodyWithin_useNames r ts _ m).trans hb
    rw [hb₀, hd₀]
    rfl
  rw [hdecode]
  exact decodeAs_eq_ok_iff

theorem segments_of_decode (hn : replacement? m r = .ok none r₀)
    (hd : (r.method m).declaring = some declaring) (hb : r.body? m = some body)
    (h : decode m r = .ok code r') : ∃ segments operands r₁, Segment.join segments = body.code ∧
      Operands (r.bodyContext m declaring body) 0 segments r₀ operands r₁ ∧
      (liftM (withStackEffects m (Segment.instructions body.regions 0 segments operands)) :
        Action (List Instruction)) r₁ = .ok code r' := by
  obtain ⟨_, r₁, ⟨segments, operands, hjoin, -, hoperands, rfl⟩, hstack⟩ :=
    (decode_eq_ok_iff hn hd hb).mp h
  exact ⟨segments, operands, r₁, hjoin.symm, hoperands, hstack⟩

theorem unstacked_of_withStackEffects {segments : List Segment} {operands : List Operand}
    {regions : List Region} {start : Nat}
    (h : (liftM (withStackEffects m (Segment.instructions regions start segments operands)) :
      Action (List Instruction)) r = .ok code r') :
    code.map Instruction.unstacked = Segment.instructions regions start segments operands := by
  rw [map_unstacked_of_withStackEffects h, Segment.map_unstacked_instructions]

/-- **Decoding accepts exactly the bodies that can be cut into segments**, and gives one instruction
for each.  Nothing stands in for the code of `m`; the state `r₀` after finding that out differs from
`r` in names in use only. -/
theorem decode_iff_segments (hn : replacement? m r = .ok none r₀)
    (hd : (r.method m).declaring = some declaring) (hb : r.body? m = some body) :
    ((∃ code r', decode m r = .ok code r') ↔ ∃ segments, Segment.join segments = body.code ∧
      Segment.Inside body.code.length 0 segments ∧
      ∃ operands r₁, Operands (r.bodyContext m declaring body) 0 segments r₀ operands r₁) ∧
    ∀ code r', decode m r = .ok code r' → ∃ segments operands r₁,
      (∀ other, Segment.join other = body.code ↔ other = segments) ∧
      Operands (r.bodyContext m declaring body) 0 segments r₀ operands r₁ ∧
      code.map Instruction.unstacked = Segment.instructions body.regions 0 segments operands ∧
      code.length = segments.length ∧ Instruction.Tile 0 body.code.length code := by
  constructor
  · constructor
    · rintro ⟨code, r', h⟩
      obtain ⟨_, r₁, ⟨segments, operands, hjoin, hinside, hoperands, -⟩, -⟩ :=
        (decode_eq_ok_iff hn hd hb).mp h
      exact ⟨segments, hjoin.symm, hinside, operands, r₁, hoperands⟩
    · rintro ⟨segments, hjoin, hinside, operands, r₁, hoperands⟩
      exact ⟨_, _, (decode_eq_ok_iff hn hd hb).mpr
        ⟨_, r₁, ⟨segments, operands, hjoin.symm, hinside, hoperands, rfl⟩, lift_apply _ _⟩⟩
  · intro code r' h
    obtain ⟨segments, operands, r₁, hjoin, hoperands, hstack⟩ := segments_of_decode hn hd hb h
    have hcode := unstacked_of_withStackEffects hstack
    refine ⟨segments, operands, r₁, fun other => ?_, hoperands, hcode, ?_, ?_⟩
    · constructor
      · intro hother
        exact Segment.join_inj (hother.trans hjoin.symm)
      · rintro rfl
        exact hjoin
    · rw [← Segment.length_instructions hoperands body.regions, ← List.length_map, hcode]
    · have htile := Segment.tile_instructions hoperands body.regions
      rw [hjoin, Nat.zero_add] at htile
      rw [← Instruction.tile_map_unstacked, hcode]
      exact htile

end

/-! ## a body with a table, a token and a way back -/

/-- `Main` loads -2, jumps through a table, calls itself and goes back to the start -/
def jumping : Registry where
  types := #[
    { module := ⟨0⟩, name := "Program", form := .defined .reference [], fullName := "Program",
      methods := [⟨0⟩] }]
  methods := #[
    { name := "Main", modifiers := MethodFlags.isStatic, declaring := some ⟨0⟩, returnType := ⟨0⟩,
      body := some
        { code := [0x1F, 0xFE, 0x45, 1, 0, 0, 0, 5, 0, 0, 0, 0x28, 1, 0, 0, 6, 0x2B, 0xEE, 0x2A] } }]
  modules := #[
    { name := "Program", types := [⟨0⟩],
      tokens := ⟨[(⟨0x06000001⟩, .method (some ⟨0⟩))]⟩ }]

/-- the offsets of the instructions of a method, with the targets of those that jump -/
def jumpsOf? (m : MethodId) (r : Registry) : Option (List (Nat × List Nat)) :=
  match decode m r with
  | .ok code _ => some (code.map fun i => (i.offset, i.targets))
  | .error _ _ => none

theorem exists_of_jumpsOf? {m : MethodId} {r : Registry} {jumps : List (Nat × List Nat)}
    (h : jumpsOf? m r = some jumps) :
    ∃ code r', decode m r = .ok code r' ∧ code.map (fun i => (i.offset, i.targets)) = jumps := by
  rw [jumpsOf?] at h
  cases hr : decode m r with
  | ok code r' =>
    rw [hr] at h
    exact ⟨code, r', rfl, by simpa using h⟩
  | error e r' =>
    rw [hr] at h
    cases h

theorem decode_iff_segments_jumping : ∃ body code r' segments operands r₁,
    replacement? ⟨0⟩ jumping = .ok none jumping ∧ jumping.body? ⟨0⟩ = some body ∧
    decode ⟨0⟩ jumping = .ok code r' ∧
    code.map (fun i => (i.offset, i.targets)) = [(0, []), (2, [16]), (11, []), (16, [0]), (18, [])] ∧
    (∀ other, Segment.join other = body.code ↔ other = segments) ∧
    Operands (jumping.bodyContext ⟨0⟩ ⟨0⟩ body) 0 segments jumping operands r₁ ∧
    code.map Instruction.unstacked = Segment.instructions [] 0 segments operands ∧
    Instruction.Tile 0 19 code := by
  have hn : replacement? ⟨0⟩ jumping = .ok none jumping := rfl
  obtain ⟨code, r', hcode, hjumps⟩ := exists_of_jumpsOf?
    (show jumpsOf? ⟨0⟩ jumping = some [(0, []), (2, [16]), (11, []), (16, [0]), (18, [])] by
      decide +kernel)
  obtain ⟨segments, operands, r₁, hcut, hoperands, hsegments, -, htile⟩ :=
    (decode_iff_segments hn rfl rfl).2 code r' hcode
  exact ⟨_, code, r', segments, operands, r₁, hn, rfl, hcode, hjumps, hcut, hoperands, hsegments,
    htile⟩

end Registry

end ProgramScan
