import Mathlib.Data.List.Nodup
import ProgramScan.Opcode.Forms

/-!
# The encoding of opcodes

The catalogue gives every opcode bytes of its own, and no encoding starts another one: a byte string
starts with at most one opcode, and `Opcode.read` finds it (`Opcode.read_eq_iff`).
-/

namespace ProgramScan

namespace Opcode

theorem getElem?_all (op : Opcode) : all[op.ctorIdx]? = some op := by
  cases op <;> rfl

theorem mem_all (op : Opcode) : op ∈ all := List.mem_of_getElem? (getElem?_all op)

theorem encodings_isChain : (all.map encoding).IsChain (· < ·) := by
  decide +kernel

theorem encodings_nodup : (all.map encoding).Nodup :=
  (List.isChain_iff_pairwise.mp encodings_isChain).imp Nat.ne_of_lt

theorem encoding_inj {op op' : Opcode} (h : op.encoding = op'.encoding) : op = op' :=
  List.inj_on_of_nodup_map encodings_nodup (mem_all op) (mem_all op') h

theorem encoding_pages : ∀ op ∈ all,
    op.encoding < 0xFE ∨ 0xFE00 ≤ op.encoding ∧ op.encoding < 0xFE00 + 256 := by
  decide +kernel

theorem find?_encoding {n : Nat} {op : Opcode} :
    (all.find? fun op => op.encoding = n) = some op ↔ op.encoding = n := by
  constructor
  · intro h
    simpa using List.find?_some h
  · intro h
    cases hf : all.find? fun op => op.encoding = n with
    | none =>
      have hnone := List.find?_eq_none.mp hf op (mem_all op)
      simp [h] at hnone
    | some op' =>
      have hop' : op'.encoding = n := by simpa using List.find?_some hf
      rw [encoding_inj (h.trans hop'.symm)]

theorem ofByte?_eq_some {byte : UInt8} {op : Opcode} :
    ofByte? byte = some op ↔ op.encoding = byte.toNat :=
  find?_encoding

theorem ofExtendedByte?_eq_some {byte : UInt8} {op : Opcode} :
    ofExtendedByte? byte = some op ↔ op.encoding = 0xFE00 + byte.toNat :=
  find?_encoding

theorem bytes_eq_single {op : Opcode} {byte : UInt8} :
    op.bytes = [byte] ↔ op.encoding = byte.toNat := by
  have hbyte := byte.toNat_lt
  rw [bytes]
  split
  · simp only [List.cons.injEq, reduceCtorEq, and_false, false_iff]
    omega
  · rename_i h
    rw [List.cons.injEq, eq_self, and_true]
    constructor
    · intro hb
      rw [← hb, UInt8.toNat_ofNat']
      omega
    · intro hb
      rw [hb, UInt8.ofNat_toNat]

theorem bytes_eq_pair {op : Opcode} {first second : UInt8} :
    op.bytes = [first, second] ↔
      first = escapeByte ∧ op.encoding = 0xFE00 + second.toNat := by
  have hsecond := second.toNat_lt
  have hpages := encoding_pages op (mem_all op)
  rw [bytes]
  split
  · simp only [List.cons.injEq, and_true]
    rw [eq_comm]
    refine and_congr_right fun _ => ?_
    constructor
    · intro hb
      rw [← hb, UInt8.toNat_ofNat']
      omega
    · intro hb
      rw [hb, show (0xFE00 + second.toNat) % 256 = second.toNat by omega, UInt8.ofNat_toNat]
  · simp only [List.cons.injEq, reduceCtorEq, and_false, false_iff, not_and]
    intro _
    omega

theorem bytes_cases (op : Opcode) :
    (∃ byte, op.bytes = [byte] ∧ byte ≠ escapeByte) ∨ ∃ second, op.bytes = [escapeByte, second] := by
  rcases encoding_pages op (mem_all op) with h | h
  · refine .inl ⟨UInt8.ofNat op.encoding, ?_, fun he => ?_⟩
    · rw [bytes, if_neg (by omega)]
    · have hn := congrArg UInt8.toNat he
      rw [UInt8.toNat_ofNat', escapeByte] at hn
      have : (0xFE : UInt8).toNat = 0xFE := rfl
      omega
  · exact .inr ⟨UInt8.ofNat (op.encoding % 256), by rw [bytes, if_pos (by omega)]⟩

/-- **Reading an opcode** takes its bytes and leaves what follows them. -/
theorem read_eq_iff {rd next : Reader} {op : Opcode} :
    read rd = (.ok op, next) ↔
      rd.rest = op.bytes ++ next.rest ∧ next.position = rd.position + op.bytes.length := by
  obtain ⟨p, rest⟩ := rd
  obtain ⟨q, tail⟩ := next
  constructor
  · intro h
    cases rest with
    | nil => cases h
    | cons first rest =>
      simp only [read, nextByte] at h
      split at h
      · rename_i hfirst
        cases rest with
        | nil => cases h
        | cons second rest =>
          dsimp only at h
          split at h
          · rename_i op' hop
            cases h
            rw [bytes_eq_pair.mpr ⟨hfirst, ofExtendedByte?_eq_some.mp hop⟩]
            exact ⟨rfl, rfl⟩
          · cases h
      · split at h
        · rename_i op' hop
          cases h
          rw [bytes_eq_single.mpr (ofByte?_eq_some.mp hop)]
          exact ⟨rfl, rfl⟩
        · cases h
  · rintro ⟨hrest, hq⟩
    dsimp only at hrest hq
    subst hrest hq
    rcases bytes_cases op with ⟨byte, hb, hne⟩ | ⟨second, hb⟩
    · have hop := ofByte?_eq_some.mpr (bytes_eq_single.mp hb)
      rw [hb]
      simp only [read, nextByte, List.cons_append, if_neg hne, hop]
      rfl
    · have hop := ofExtendedByte?_eq_some.mpr (bytes_eq_pair.mp hb).2
      rw [hb]
      simp only [read, nextByte, List.cons_append, if_true, hop]
      rfl

/-- no encoding starts another one -/
theorem bytes_append_inj {op op' : Opcode} {tail tail' : List UInt8}
    (h : op.bytes ++ tail = op'.bytes ++ tail') : op = op' ∧ tail = tail' := by
  have hop : read ⟨0, op.bytes ++ tail⟩ = (.ok op, ⟨0 + op.bytes.length, tail⟩) :=
    read_eq_iff.mpr ⟨rfl, rfl⟩
  rw [h] at hop
  have hop' : read ⟨0, op'.bytes ++ tail'⟩ = (.ok op', ⟨0 + op'.bytes.length, tail'⟩) :=
    read_eq_iff.mpr ⟨rfl, rfl⟩
  rw [hop'] at hop
  cases hop
  exact ⟨rfl, rfl⟩

theorem bytes_ne_nil (op : Opcode) : op.bytes ≠ [] := by
  rcases bytes_cases op with ⟨byte, hb, -⟩ | ⟨second, hb⟩ <;> simp [hb]

end Opcode

end ProgramScan
