import ProgramScan.Proofs.Instruction.Segments
import ProgramScan.Proofs.Instruction.Settled

/-!
# Decoding follows the segments

Decoding reads segments one after the other (`Registry.decodeNext_eq_ok_iff`), so it succeeds exactly
on the byte strings that can be cut into segments whose targets are offsets of the body and whose
tokens denote what their opcodes ask for, and gives one instruction for each segment
(`Registry.decode_succeeds_iff_segments`).
-/

namespace ProgramScan

/-! ## numbers -/

namespace Reader

theorem take_eq_ok_iff {rd next : Reader} {width : Nat} {bytes : List UInt8} :
    rd.take width = .ok (bytes, next) ↔ bytes.length = width ∧ rd.rest = bytes ++ next.rest ∧
      next.position = rd.position + width := by
  obtain ⟨p, rest⟩ := rd
  obtain ⟨q, tail⟩ := next
  rw [take]
  constructor
  · intro h
    cases ht : takeExactly width rest with
    | none => simp [ht] at h
    | some cut =>
      obtain ⟨front, back⟩ := cut
      obtain ⟨hrest, hwidth⟩ := takeExactly_eq_some.mp ht
      simp only [ht, Except.ok.injEq, Prod.mk.injEq, mk.injEq] at h
      obtain ⟨rfl, rfl, rfl⟩ := h
      exact ⟨hwidth, hrest, rfl⟩
  · rintro ⟨hwidth, hrest, hq⟩
    dsimp only at hrest hq
    rw [takeExactly_eq_some.mpr ⟨hrest, hwidth⟩, hq]

theorem unsigned_eq_ok_iff {rd next : Reader} {width n : Nat} :
    rd.unsigned width = .ok (n, next) ↔
      ∃ bytes, rd.take width = .ok (bytes, next) ∧ littleEndian bytes = n := by
  rw [unsigned]
  cases rd.take width with
  | error e => simp [Except.map]
  | ok cut =>
    obtain ⟨bytes, rest⟩ := cut
    simp only [Except.map, Except.ok.injEq, Prod.mk.injEq]
    constructor
    · rintro ⟨rfl, rfl⟩
      exact ⟨bytes, ⟨rfl, rfl⟩, rfl⟩
    · rintro ⟨_, ⟨rfl, rfl⟩, rfl⟩
      exact ⟨rfl, rfl⟩

theorem signed_eq_ok_iff {rd next : Reader} {width : Nat} {n : Int} :
    rd.signed width = .ok (n, next) ↔
      ∃ bytes, rd.take width = .ok (bytes, next) ∧ twosComplement bytes = n := by
  rw [signed, unsigned]
  cases htake : rd.take width with
  | error e => simp [Except.map]
  | ok cut =>
    obtain ⟨bytes, rest⟩ := cut
    have hlength := (take_eq_ok_iff.mp htake).1
    simp only [Except.map, Except.ok.injEq, Prod.mk.injEq, ← hlength, signedOf_littleEndian]
    constructor
    · rintro ⟨rfl, rfl⟩
      exact ⟨bytes, ⟨rfl, rfl⟩, rfl⟩
    · rintro ⟨_, ⟨rfl, rfl⟩, rfl⟩
      exact ⟨rfl, rfl⟩

end Reader

namespace Registry

section
variable {α : Type} {r r' : Registry}

theorem pure_eq_ok_iff {a b : α} : (pure a : Action α) r = .ok b r' ↔ a = b ∧ r = r' := by
  show EStateM.Result.ok a r = .ok b r' ↔ _
  rw [EStateM.Result.ok.injEq]

theorem ofExcept_eq_ok_iff {x : Except Error α} {a : α} :
    (MonadExcept.ofExcept x : Action α) r = .ok a r' ↔ x = .ok a ∧ r = r' := by
  cases x with
  | ok b =>
    rw [Except.ok.injEq]
    exact pure_eq_ok_iff
  | error e =>
    constructor
    · intro h
      cases h
    · rintro ⟨h, -⟩
      cases h

theorem readUnsigned_eq_ok_iff {rd next : Reader} {width n : Nat} :
    readUnsigned width rd r = .ok (n, next) r' ↔
      (∃ bytes, rd.take width = .ok (bytes, next) ∧ littleEndian bytes = n) ∧ r = r' := by
  rw [readUnsigned, ofExcept_eq_ok_iff, Reader.unsigned_eq_ok_iff]

theorem readSigned_eq_ok_iff {rd next : Reader} {width : Nat} {n : Int} :
    readSigned width rd r = .ok (n, next) r' ↔
      (∃ bytes, rd.take width = .ok (bytes, next) ∧ twosComplement bytes = n) ∧ r = r' := by
  rw [readSigned, ofExcept_eq_ok_iff, Reader.signed_eq_ok_iff]

/-! ## displacements -/

theorem branchTarget_eq_ok_iff {ctx : DecodeContext} {offset n : Nat} {target : Int} :
    branchTarget ctx offset target r = .ok n r' ↔
      (0 ≤ target ∧ target < ctx.size) ∧ target.toNat = n ∧ r = r' := by
  rw [branchTarget]
  by_cases h : 0 ≤ target ∧ target < ctx.size
  · rw [if_pos (by simpa using h), pure_eq_ok_iff]
    simp [h]
  · rw [if_neg (by simpa using h)]
    constructor
    · intro hn
      cases hn
    · intro hn
      exact absurd hn.1 h

theorem readBranch_eq_ok_iff {ctx : DecodeContext} {offset width : Nat} {rd next : Reader}
    {operand : Operand} :
    readBranch ctx offset width rd r = .ok (operand, next) r' ↔
      ∃ bytes, rd.take width = .ok (bytes, next) ∧
        (0 ≤ next.position + twosComplement bytes ∧
          next.position + twosComplement bytes < ctx.size) ∧
        operand = .branch (next.position + twosComplement bytes).toNat ∧ r = r' := by
  simp only [readBranch, bind_eq_ok_iff, Prod.exists, readSigned_eq_ok_iff, branchTarget_eq_ok_iff,
    pure_eq_ok_iff]
  constructor
  · rintro ⟨_, _, _, ⟨⟨bytes, htake, rfl⟩, rfl⟩, _, _, ⟨htarget, rfl, rfl⟩, hout, rfl⟩
    cases hout
    exact ⟨bytes, htake, htarget, rfl, rfl⟩
  · rintro ⟨bytes, htake, htarget, rfl, rfl⟩
    exact ⟨_, _, _, ⟨⟨bytes, htake, rfl⟩, rfl⟩, _, _, ⟨htarget, rfl, rfl⟩, rfl, rfl⟩

end

/-! ## jump tables -/

section
variable {r r' : Registry} {ctx : DecodeContext} {offset : Nat} {rd next : Reader}

theorem take_add_eq_ok_iff {a b : Nat} {bytes : List UInt8} :
    rd.take (a + b) = .ok (bytes, next) ↔ ∃ front mid back, rd.take a = .ok (front, mid) ∧
      mid.take b = .ok (back, next) ∧ bytes = front ++ back := by
  simp only [Reader.take_eq_ok_iff]
  constructor
  · rintro ⟨hlength, hrest, hnext⟩
    refine ⟨bytes.take a, ⟨rd.position + a, bytes.drop a ++ next.rest⟩, bytes.drop a,
      ⟨?_, ?_, rfl⟩, ⟨?_, rfl, ?_⟩, (List.take_append_drop a bytes).symm⟩
    · rw [List.length_take]
      omega
    · rw [hrest, ← List.append_assoc, List.take_append_drop]
    · rw [List.length_drop]
      omega
    · rw [hnext, Nat.add_assoc]
  · rintro ⟨front, mid, back, ⟨hfront, hrest, hmid⟩, ⟨hback, hrest', hnext⟩, rfl⟩
    refine ⟨by rw [List.length_append, hfront, hback], ?_, ?_⟩
    · rw [hrest, hrest', List.append_assoc]
    · rw [hnext, hmid]
      omega

theorem readTargets_eq_ok_iff {tableEnd count : Nat} {targets : List Nat} :
    readTargets ctx offset tableEnd count rd r = .ok (targets, next) r' ↔
      ∃ table, rd.take (4 * count) = .ok (table, next) ∧
        (∀ target ∈ (tableNumbers table).map fun d => (tableEnd : Int) + d,
          0 ≤ target ∧ target < ctx.size) ∧
        targets = ((tableNumbers table).map fun d => (tableEnd : Int) + d).map Int.toNat ∧ r = r' := by
  induction count generalizing rd targets r r' next with
  | zero =>
    rw [readTargets, pure_eq_ok_iff, Prod.mk.injEq, Nat.mul_zero]
    simp only [Reader.take_eq_ok_iff, List.length_eq_zero_iff]
    constructor
    · rintro ⟨⟨rfl, rfl⟩, rfl⟩
      exact ⟨[], ⟨rfl, rfl, rfl⟩, by simp [tableNumbers, words], rfl, rfl⟩
    · rintro ⟨_, ⟨rfl, hrest, hnext⟩, -, rfl, rfl⟩
      cases rd
      cases next
      simp_all [tableNumbers, words]
  | succ count ih =>
    rw [readTargets, show 4 * (count + 1) = 4 + 4 * count by omega]
    simp only [bind_eq_ok_iff, Prod.exists, readSigned_eq_ok_iff, branchTarget_eq_ok_iff,
      pure_eq_ok_iff, ih, take_add_eq_ok_iff]
    constructor
    · rintro ⟨_, mid, _, ⟨⟨front, hfront, rfl⟩, rfl⟩, _, _, ⟨hfirst, rfl, rfl⟩, _, _, _,
        ⟨back, hback, hinside, rfl, rfl⟩, hout, rfl⟩
      cases hout
      have hwords := words_append (Reader.take_eq_ok_iff.mp hfront).1 back
      refine ⟨_, ⟨front, mid, back, hfront, hback, rfl⟩, ?_, ?_, rfl⟩
      · simp only [tableNumbers, hwords, List.map_cons, List.mem_cons]
        rintro target (htarget | htarget)
        · rw [htarget]
          exact hfirst
        · exact hinside target htarget
      · simp only [tableNumbers, hwords, List.map_cons]
    · rintro ⟨_, ⟨front, mid, back, hfront, hback, rfl⟩, hinside, rfl, rfl⟩
      have hwords := words_append (Reader.take_eq_ok_iff.mp hfront).1 back
      simp only [tableNumbers, hwords, List.map_cons, List.mem_cons] at hinside ⊢
      exact ⟨_, mid, _, ⟨⟨front, hfront, rfl⟩, rfl⟩, _, _, ⟨hinside _ (.inl rfl), rfl, rfl⟩, _, _, _,
        ⟨back, hback, fun target htarget => hinside target (.inr htarget), rfl, rfl⟩, rfl, rfl⟩

theorem readSwitch_eq_ok_iff {operand : Operand} :
    readSwitch ctx offset rd r = .ok (operand, next) r' ↔
      ∃ count table mid, rd.take 4 = .ok (count, mid) ∧
        mid.take (4 * littleEndian count) = .ok (table, next) ∧
        (∀ target ∈ (tableNumbers table).map fun d => (next.position : Int) + d,
          0 ≤ target ∧ target < ctx.size) ∧
        operand = .switch (((tableNumbers table).map fun d => (next.position : Int) + d).map Int.toNat) ∧
        r = r' := by
  simp only [readSwitch, bind_eq_ok_iff, Prod.exists, readUnsigned_eq_ok_iff, readTargets_eq_ok_iff,
    pure_eq_ok_iff]
  constructor
  · rintro ⟨_, mid, _, ⟨⟨count, hcount, rfl⟩, rfl⟩, _, _, _, ⟨table, htable, hinside, rfl, rfl⟩, hout,
      rfl⟩
    cases hout
    have hend := (Reader.take_eq_ok_iff.mp htable).2.2
    rw [← hend] at hinside ⊢
    exact ⟨count, table, mid, hcount, htable, hinside, rfl, rfl⟩
  · rintro ⟨count, table, mid, hcount, htable, hinside, rfl, rfl⟩
    have hend := (Reader.take_eq_ok_iff.mp htable).2.2
    rw [hend] at hinside ⊢
    exact ⟨_, mid, _, ⟨⟨count, hcount, rfl⟩, rfl⟩, _, _, _, ⟨table, htable, hinside, rfl, rfl⟩,
      rfl, rfl⟩

end

/-! ## operands -/

section
variable {r r' : Registry} {ctx : DecodeContext} {offset : Nat} {op : Opcode} {rd next : Reader}
  {operand : Operand}

theorem readToken_eq_ok_iff :
    readToken ctx op rd r = .ok (operand, next) r' ↔
      ∃ bytes, rd.take 4 = .ok (bytes, next) ∧ ∃ found,
        resolveToken ctx.module ⟨UInt32.ofNat (littleEndian bytes)⟩ ctx.generic r = .ok found r' ∧
        operandOf? op.operand found = some operand := by
  simp only [readToken, bind_eq_ok_iff, Prod.exists, readUnsigned_eq_ok_iff]
  constructor
  · rintro ⟨_, mid, _, ⟨⟨bytes, htake, rfl⟩, rfl⟩, found, s, hfound, hout⟩
    cases ho : operandOf? op.operand found with
    | some operand' =>
      rw [ho] at hout
      obtain ⟨hout, rfl⟩ := pure_eq_ok_iff.mp hout
      cases hout
      exact ⟨bytes, htake, found, hfound, ho⟩
    | none =>
      rw [ho] at hout
      cases hout
  · rintro ⟨bytes, htake, found, hfound, ho⟩
    refine ⟨_, next, _, ⟨⟨bytes, htake, rfl⟩, rfl⟩, found, r', hfound, ?_⟩
    rw [ho]
    rfl

def Starts (op : Opcode) (rd next : Reader) (s : Segment) : Prop :=
  s.opcode = op ∧ rd.rest = s.operand ++ next.rest ∧
    next.position = rd.position + s.operand.length

/-- an opcode with an operand of fixed width takes that many bytes -/
theorem exists_starts_iff {width : Nat} (hw : op.operand.size? = some width) {P : Segment → Prop} :
    (∃ s, Starts op rd next s ∧ P s) ↔
      ∃ bytes, rd.take width = .ok (bytes, next) ∧ ∃ hf, P ⟨op, bytes, hf⟩ := by
  constructor
  · rintro ⟨⟨op', bytes, hf⟩, ⟨rfl, hrest, hnext⟩, hP⟩
    have hlength := (OperandKind.fits_iff_length hw).mp hf
    refine ⟨bytes, Reader.take_eq_ok_iff.mpr ⟨hlength, hrest, ?_⟩, hf, hP⟩
    rw [← hlength]
    exact hnext
  · rintro ⟨bytes, htake, hf, hP⟩
    obtain ⟨hlength, hrest, hnext⟩ := Reader.take_eq_ok_iff.mp htake
    rw [← hlength] at hnext
    exact ⟨_, ⟨rfl, hrest, hnext⟩, hP⟩

theorem denotes_iff_of_plain {s : Segment} {stop : Nat} (hs : s.opcode.operand.isToken = false) :
    s.Denotes ctx stop r operand r' ↔ s.value stop = operand ∧ r = r' := by
  constructor
  · intro h
    cases h with
    | plain _ => exact ⟨rfl, rfl⟩
    | token hs' _ _ => simp [hs] at hs'
  · rintro ⟨rfl, rfl⟩
    exact .plain hs

theorem denotes_iff_of_token {s : Segment} {stop : Nat} (hs : s.opcode.operand.isToken = true) :
    s.Denotes ctx stop r operand r' ↔ ∃ found,
      resolveToken ctx.module s.token ctx.generic r = .ok found r' ∧
        operandOf? s.opcode.operand found = some operand := by
  constructor
  · intro h
    cases h with
    | plain hs' => simp [hs] at hs'
    | token _ hfound ho => exact ⟨_, hfound, ho⟩
  · rintro ⟨found, hfound, ho⟩
    exact .token hs hfound ho

/-- what is asked of a segment that ends at `stop` -/
def Accepts (ctx : DecodeContext) (stop : Nat) (r : Registry) (operand : Operand) (r' : Registry)
    (s : Segment) : Prop :=
  (∀ target ∈ s.targets stop, 0 ≤ target ∧ target < ctx.size) ∧ s.Denotes ctx stop r operand r'

theorem exists_accepts_iff {width : Nat} {f : List UInt8 → Operand}
    (hw : op.operand.size? = some width) (ht : op.operand.isToken = false)
    (hd : ∀ bytes hf, (⟨op, bytes, hf⟩ : Segment).displacements = [])
    (hv : ∀ bytes hf stop, (⟨op, bytes, hf⟩ : Segment).value stop = f bytes) :
    (∃ s, Starts op rd next s ∧ Accepts ctx next.position r operand r' s) ↔
      ∃ bytes, rd.take width = .ok (bytes, next) ∧ f bytes = operand ∧ r = r' := by
  rw [exists_starts_iff hw]
  refine exists_congr fun bytes => and_congr_right fun htake => ?_
  have hlength := (Reader.take_eq_ok_iff.mp htake).1
  constructor
  · rintro ⟨hf, -, hdenotes⟩
    rw [denotes_iff_of_plain ht, hv] at hdenotes
    exact hdenotes
  · intro h
    refine ⟨(OperandKind.fits_iff_length hw).mpr hlength, ?_, ?_⟩
    · simp [Segment.targets, hd]
    · rw [denotes_iff_of_plain ht, hv]
      exact h

theorem readNumber_iff_accepts {α : Type} {width : Nat} {read : Action (α × Reader)}
    {number : List UInt8 → α} {f : α → Operand}
    (hread : ∀ {n next r'}, read r = .ok (n, next) r' ↔
      (∃ bytes, rd.take width = .ok (bytes, next) ∧ number bytes = n) ∧ r = r')
    (hw : op.operand.size? = some width) (ht : op.operand.isToken = false)
    (hd : ∀ bytes hf, (⟨op, bytes, hf⟩ : Segment).displacements = [])
    (hv : ∀ bytes hf stop, (⟨op, bytes, hf⟩ : Segment).value stop = f (number bytes)) :
    (do let (value, rd) ← read
        return (f value, rd) : Action (Operand × Reader)) r = .ok (operand, next) r' ↔
      ∃ s, Starts op rd next s ∧ Accepts ctx next.position r operand r' s := by
  rw [exists_accepts_iff hw ht hd hv]
  simp only [bind_eq_ok_iff, Prod.exists, hread, pure_eq_ok_iff]
  constructor
  · rintro ⟨_, _, _, ⟨⟨bytes, htake, rfl⟩, rfl⟩, hout, rfl⟩
    cases hout
    exact ⟨bytes, htake, rfl, rfl⟩
  · rintro ⟨bytes, htake, rfl, rfl⟩
    exact ⟨_, _, _, ⟨⟨bytes, htake, rfl⟩, rfl⟩, rfl, rfl⟩

theorem readBranch_iff_accepts {width : Nat} (hw : op.operand.size? = some width)
    (ht : op.operand.isToken = false)
    (hd : ∀ bytes hf, (⟨op, bytes, hf⟩ : Segment).displacements =
      [twosComplement bytes])
    (hv : ∀ bytes hf stop, (⟨op, bytes, hf⟩ : Segment).value stop =
      .branch (stop + twosComplement bytes).toNat) :
    readBranch ctx offset width rd r = .ok (operand, next) r' ↔
      ∃ s, Starts op rd next s ∧ Accepts ctx next.position r operand r' s := by
  rw [readBranch_eq_ok_iff, exists_starts_iff hw]
  refine exists_congr fun bytes => and_congr_right fun htake => ?_
  have hlength := (Reader.take_eq_ok_iff.mp htake).1
  have hf := (OperandKind.fits_iff_length hw).mpr hlength
  have htargets : ∀ stop, (⟨op, bytes, hf⟩ : Segment).targets stop =
      [stop + twosComplement bytes] := by
    intro stop
    rw [Segment.targets, hd, List.map_singleton]
  constructor
  · rintro ⟨htarget, hoperand, hr⟩
    refine ⟨hf, fun target hmem => ?_, ?_⟩
    · rw [htargets, List.mem_singleton] at hmem
      rw [hmem]
      exact htarget
    · rw [denotes_iff_of_plain ht, hv]
      exact ⟨hoperand.symm, hr⟩
  · rintro ⟨_, hinside, hdenotes⟩
    rw [denotes_iff_of_plain ht, hv] at hdenotes
    refine ⟨hinside _ ?_, hdenotes.1.symm, hdenotes.2⟩
    rw [htargets]
    exact List.mem_singleton.mpr rfl

theorem readToken_iff_accepts (hw : op.operand.size? = some 4) (ht : op.operand.isToken = true)
    (hd : ∀ bytes hf, (⟨op, bytes, hf⟩ : Segment).displacements = []) :
    readToken ctx op rd r = .ok (operand, next) r' ↔
      ∃ s, Starts op rd next s ∧ Accepts ctx next.position r operand r' s := by
  rw [readToken_eq_ok_iff, exists_starts_iff hw]
  refine exists_congr fun bytes => and_congr_right fun htake => ?_
  have hlength := (Reader.take_eq_ok_iff.mp htake).1
  constructor
  · intro hfound
    refine ⟨(OperandKind.fits_iff_length hw).mpr hlength, ?_, ?_⟩
    · simp [Segment.targets, hd]
    · rw [denotes_iff_of_token ht]
      exact hfound
  · rintro ⟨_, -, hdenotes⟩
    rw [denotes_iff_of_token ht] at hdenotes
    exact hdenotes

theorem readSwitch_iff_accepts (hk : op.operand = .switch) :
    readSwitch ctx offset rd r = .ok (operand, next) r' ↔
      ∃ s, Starts op rd next s ∧ Accepts ctx next.position r operand r' s := by
  rw [readSwitch_eq_ok_iff]
  have ht : op.operand.isToken = false := by rw [hk]; rfl
  constructor
  · rintro ⟨count, table, mid, hcount, htable, hinside, hoperand, hr⟩
    obtain ⟨hclen, hcrest, hmid⟩ := Reader.take_eq_ok_iff.mp hcount
    obtain ⟨htlen, htrest, hnext⟩ := Reader.take_eq_ok_iff.mp htable
    have hf : op.operand.Fits (count ++ table) := by
      rw [hk]
      exact ⟨count, table, rfl, hclen, htlen⟩
    have htargets : ∀ stop, (⟨op, count ++ table, hf⟩ : Segment).targets stop =
        (tableNumbers table).map fun d => (stop : Int) + d := by
      intro stop
      simp only [Segment.targets, Segment.displacements, hk]
      rw [← hclen, List.drop_left]
    refine ⟨⟨op, count ++ table, hf⟩, ⟨rfl, ?_, ?_⟩, ?_, ?_⟩
    · rw [hcrest, htrest, List.append_assoc]
    · rw [hnext, hmid, List.length_append, hclen, htlen, Nat.add_assoc]
    · rw [htargets]
      exact hinside
    · rw [denotes_iff_of_plain ht]
      refine ⟨?_, hr⟩
      rw [hoperand, ← htargets]
      simp only [Segment.value, hk]
  · rintro ⟨⟨op', bytes, hf⟩, ⟨rfl, hrest, hnext⟩, hinside, hdenotes⟩
    have hf' := hf
    dsimp only at hk hrest hnext
    rw [hk] at hf'
    obtain ⟨count, table, rfl, hclen, htlen⟩ := hf'
    have htargets : ∀ stop, (⟨op', count ++ table, hf⟩ : Segment).targets stop =
        (tableNumbers table).map fun d => (stop : Int) + d := by
      intro stop
      simp only [Segment.targets, Segment.displacements, hk]
      rw [← hclen, List.drop_left]
    rw [denotes_iff_of_plain ht] at hdenotes
    rw [htargets] at hinside
    refine ⟨count, table, ⟨rd.position + 4, table ++ next.rest⟩, ?_, ?_, hinside, ?_, hdenotes.2⟩
    · rw [Reader.take_eq_ok_iff]
      exact ⟨hclen, by rw [hrest, List.append_assoc], rfl⟩
    · rw [Reader.take_eq_ok_iff]
      refine ⟨htlen, rfl, ?_⟩
      rw [hnext, List.length_append, hclen, htlen, Nat.add_assoc]
    · rw [← hdenotes.1, ← htargets]
      simp only [Segment.value, hk]

end

/-! ## instructions -/

section
variable {r r' : Registry} {ctx : DecodeContext} {offset : Nat} {op : Opcode} {rd next : Reader}
  {operand : Operand}

/-- reading an operand reads the rest of a segment -/
theorem readOperand_eq_ok_iff :
    readOperand ctx offset op rd r = .ok (operand, next) r' ↔
      ∃ s, Starts op rd next s ∧ Accepts ctx next.position r operand r' s := by
  have hsize : ∀ {kind}, op.operand = kind → op.operand.size? = kind.size? := by
    rintro _ rfl
    rfl
  have htoken : ∀ {kind}, op.operand = kind → op.operand.isToken = kind.isToken := by
    rintro _ rfl
    rfl
  cases hk : op.operand with
  | none =>
    rw [exists_accepts_iff (f := fun _ => implicitOperand op) (hsize hk) (htoken hk)
      (by simp [Segment.displacements, hk]) (by simp [Segment.value, hk])]
    simp only [readOperand, hk, pure_eq_ok_iff, Prod.mk.injEq, Reader.take_eq_ok_iff,
      List.length_eq_zero_iff]
    constructor
    · rintro ⟨⟨rfl, rfl⟩, rfl⟩
      exact ⟨[], ⟨rfl, rfl, rfl⟩, rfl, rfl⟩
    · rintro ⟨_, ⟨rfl, hrest, hnext⟩, rfl, rfl⟩
      refine ⟨⟨rfl, ?_⟩, rfl⟩
      cases rd
      cases next
      simp_all
  | shortInt | int | int64 =>
    simp only [readOperand, hk]
    exact readNumber_iff_accepts readSigned_eq_ok_iff (hsize hk) (htoken hk)
      (by simp [Segment.displacements, hk]) (by simp [Segment.value, hk])
  | byte | shortFloat | float | shortVar | var =>
    simp only [readOperand, hk]
    exact readNumber_iff_accepts readUnsigned_eq_ok_iff (hsize hk) (htoken hk)
      (by simp [Segment.displacements, hk]) (by simp [Segment.value, hk])
  | shortBranch | branch =>
    simp only [readOperand, hk]
    exact readBranch_iff_accepts (hsize hk) (htoken hk) (by simp [Segment.displacements, hk])
      (by simp [Segment.value, hk])
  | switch =>
    simp only [readOperand, hk]
    exact readSwitch_iff_accepts hk
  | method | field | type | token | string | signature =>
    simp only [readOperand, hk]
    exact readToken_iff_accepts (hsize hk) (htoken hk) (by simp [Segment.displacements, hk])

/-- **Decoding one instruction** reads one segment. -/
theorem decodeNext_eq_ok_iff {i : Instruction} :
    decodeNext ctx rd r = .ok (i, next) r' ↔ ∃ s operand, rd.rest = s.bytes ++ next.rest ∧
      next.position = rd.position + s.size ∧ Accepts ctx next.position r operand r' s ∧
      i = Instruction.ofEncoded s.opcode rd.position next.position operand := by
  rw [decodeNext]
  constructor
  · intro h
    cases hread : Opcode.read rd with
    | mk read mid =>
    rw [hread] at h
    obtain ⟨op, _, hop, h⟩ := bind_eq_ok_iff.mp h
    obtain ⟨rfl, rfl⟩ := ofExcept_eq_ok_iff.mp hop
    obtain ⟨⟨operand, next'⟩, _, hoperand, h⟩ := bind_eq_ok_iff.mp h
    obtain ⟨hout, rfl⟩ := pure_eq_ok_iff.mp h
    cases hout
    obtain ⟨s, ⟨rfl, hrest, hnext⟩, haccepts⟩ := readOperand_eq_ok_iff.mp hoperand
    obtain ⟨hbytes, hmid⟩ := Opcode.read_eq_iff.mp hread
    refine ⟨s, operand, ?_, ?_, haccepts, rfl⟩
    · rw [hbytes, hrest, Segment.bytes, List.append_assoc]
    · rw [hnext, hmid, Segment.size, Segment.bytes, List.length_append, Nat.add_assoc]
  · rintro ⟨s, operand, hrest, hnext, haccepts, rfl⟩
    have hread : Opcode.read rd = (.ok s.opcode,
        ⟨rd.position + s.opcode.bytes.length, s.operand ++ next.rest⟩) := by
      rw [Opcode.read_eq_iff]
      refine ⟨?_, rfl⟩
      rw [hrest, Segment.bytes, List.append_assoc]
    have hoperand : readOperand ctx rd.position s.opcode
        ⟨rd.position + s.opcode.bytes.length, s.operand ++ next.rest⟩ r = .ok (operand, next) r' := by
      rw [readOperand_eq_ok_iff]
      refine ⟨s, ⟨rfl, rfl, ?_⟩, haccepts⟩
      rw [hnext, Segment.size, Segment.bytes, List.length_append, Nat.add_assoc]
    rw [hread, bind_eq_ok_iff]
    refine ⟨s.opcode, r, rfl, ?_⟩
    rw [bind_eq_ok_iff]
    exact ⟨_, r', hoperand, rfl⟩

theorem length_lt_of_decodeNext {i : Instruction} (h : decodeNext ctx rd r = .ok (i, next) r') :
    next.rest.length < rd.rest.length := by
  obtain ⟨s, operand, hbytes, -, -, -⟩ := decodeNext_eq_ok_iff.mp h
  have hpos := s.size_pos
  rw [hbytes, List.length_append]
  exact Nat.lt_add_of_pos_left hpos

/-- the bytes from `rd` on can be cut into segments, which give the instructions `code` -/
def Segmented (ctx : DecodeContext) (regions : List Region) (rd : Reader) (r : Registry)
    (code : List Instruction) (r' : Registry) : Prop :=
  ∃ segments operands, rd.rest = Segment.join segments ∧
    Segment.Inside ctx.size rd.position segments ∧
    Operands ctx rd.position segments r operands r' ∧
    code = Segment.instructions regions rd.position segments operands

theorem segmented_nil_iff {regions : List Region} {code : List Instruction} (h : rd.rest = []) :
    Segmented ctx regions rd r code r' ↔ [] = code ∧ r = r' := by
  constructor
  · rintro ⟨segments, operands, hjoin, -, hoperands, rfl⟩
    rw [h] at hjoin
    have hnil : segments = [] := Segment.join_inj (by rw [← hjoin, Segment.join_nil])
    subst hnil
    cases hoperands
    exact ⟨rfl, rfl⟩
  · rintro ⟨rfl, rfl⟩
    exact ⟨[], [], h, trivial, .nil, rfl⟩

/-- the first segment and the others -/
theorem segmented_cons_iff {regions : List Region} {code : List Instruction} (h : rd.rest ≠ []) :
    Segmented ctx regions rd r code r' ↔ ∃ i next s rest, decodeNext ctx rd r = .ok (i, next) s ∧
      Segmented ctx regions next s rest r' ∧
      code = { i with region := enclosingRegion regions rd.position } :: rest := by
  constructor
  · rintro ⟨segments, operands, hjoin, hinside, hoperands, rfl⟩
    cases hoperands with
    | nil => exact absurd hjoin h
    | @cons _ s segments _ s' _ operand operands hfirst hrest =>
      rw [Segment.join_cons] at hjoin
      refine ⟨_, ⟨rd.position + s.size, Segment.join segments⟩, s', _,
        decodeNext_eq_ok_iff.mpr ⟨s, operand, hjoin, rfl, ⟨hinside.1, hfirst⟩, rfl⟩,
        ⟨segments, operands, rfl, hinside.2, hrest, rfl⟩, rfl⟩
  · rintro ⟨i, next, s, rest, hnext, ⟨segments, operands, hjoin, hinside, hoperands, rfl⟩, rfl⟩
    obtain ⟨seg, operand, hbytes, hposition, ⟨htargets, hdenotes⟩, rfl⟩ :=
      decodeNext_eq_ok_iff.mp hnext
    rw [hposition] at htargets hdenotes hinside hoperands
    refine ⟨seg :: segments, operand :: operands, ?_, ⟨htargets, hinside⟩, .cons hdenotes hoperands, ?_⟩
    · rw [hbytes, hjoin, Segment.join_cons]
    · rw [hposition]
      rfl

/-- **Decoding to the end** reads segments until nothing is left. -/
theorem decodeFrom_eq_ok_iff {regions : List Region} {count : Nat} {code : List Instruction}
    (hcount : rd.rest.length ≤ count) :
    decodeFrom ctx regions count rd r = .ok code r' ↔ Segmented ctx regions rd r code r' := by
  induction count generalizing rd r code with
  | zero =>
    rw [segmented_nil_iff (List.length_eq_zero_iff.mp (Nat.le_zero.mp hcount))]
    exact pure_eq_ok_iff
  | succ count ih =>
    rw [decodeFrom]
    by_cases hrest : rd.rest = []
    · have hmore : rd.hasMore = false := by simp [Reader.hasMore, hrest]
      rw [segmented_nil_iff hrest, hmore]
      exact pure_eq_ok_iff
    · have hmore : rd.hasMore = true := by simp [Reader.hasMore, hrest]
      rw [segmented_cons_iff hrest, if_pos hmore, bind_eq_ok_iff]
      constructor
      · rintro ⟨⟨i, next⟩, s, hnext, h⟩
        obtain ⟨rest, s', hfrom, h⟩ := bind_eq_ok_iff.mp h
        obtain ⟨rfl, rfl⟩ := pure_eq_ok_iff.mp h
        have hlt := length_lt_of_decodeNext hnext
        exact ⟨i, next, s, rest, hnext, (ih (by omega)).mp hfrom, rfl⟩
      · rintro ⟨i, next, s, rest, hnext, hsegmented, rfl⟩
        have hlt := length_lt_of_decodeNext hnext
        refine ⟨(i, next), s, hnext, ?_⟩
        rw [bind_eq_ok_iff]
        exact ⟨rest, r', (ih (by omega)).mpr hsegmented, rfl⟩

end

end Registry

end ProgramScan
