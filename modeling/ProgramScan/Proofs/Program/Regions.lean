import ProgramScan.Program.Region
import Mathlib.Data.List.Basic

/-!
# Which region an offset is tagged with

The scan of `enclosingRegion` carries one region along and compares a later one with it block by
block of the same kind: protected block with protected block, handler with handler, start of filter
with start of filter.  The blocks of a region are the half-open intervals of `Region.blocks`, with
the ends that the regions themselves compute.

* `Region.Holds`: some block of the region has the offset in it.  `Region.Trails`: the region has a
  filter and the offset lies behind the handler of it.
* `enclosingRegion_innermost`: for regions without filters that are nested and listed innermost
  first, the offset is tagged with the first region that holds it, and the block that holds it lies
  in every other block that does.  No comparison of the scan can take the region away again: it
  would need a later region with a block strictly inside a block of the first one.
* `enclosingRegion_sound`: for arbitrary regions, in any order, the region tagged holds the offset
  or is trailed by it.  An offset outside all blocks is tagged exactly when it trails some filter
  region, and then with the one whose filter starts last.
-/

namespace ProgramScan

/-! ## Blocks -/

/-- The offsets from `start` up to, not including, `stop`. -/
structure Block where
  start : Nat
  stop : Nat
  deriving DecidableEq

namespace Block

instance : Membership Nat Block where
  mem b pos := b.start ≤ pos ∧ pos < b.stop

theorem mem_def {b : Block} {pos : Nat} : pos ∈ b ↔ b.start ≤ pos ∧ pos < b.stop := Iff.rfl

instance (b : Block) (pos : Nat) : Decidable (pos ∈ b) :=
  inferInstanceAs (Decidable (b.start ≤ pos ∧ pos < b.stop))

def Nonempty (b : Block) : Prop := b.start < b.stop

def Within (a b : Block) : Prop := b.start ≤ a.start ∧ a.stop ≤ b.stop

def Apart (a b : Block) : Prop := a.stop ≤ b.start ∨ b.stop ≤ a.start

instance (b : Block) : Decidable b.Nonempty := inferInstanceAs (Decidable (_ < _))

instance (a b : Block) : Decidable (a.Within b) := inferInstanceAs (Decidable (_ ∧ _))

instance (a b : Block) : Decidable (a.Apart b) := inferInstanceAs (Decidable (_ ∨ _))

theorem Within.refl (a : Block) : a.Within a := ⟨Nat.le_refl _, Nat.le_refl _⟩

theorem not_apart {a b : Block} {pos : Nat} (ha : pos ∈ a) (hb : pos ∈ b) : ¬ a.Apart b := by
  rw [mem_def] at ha hb
  rintro (h | h) <;> omega

end Block

namespace Region

def protectedBlock (h : Region) : Block := ⟨h.tryOffset, h.tryEnd⟩

def handlerBlock (h : Region) : Block := ⟨h.handlerOffset, h.handlerEnd⟩

/-- the code of the filter, which ends where the handler starts -/
def filterBlock (h : Region) : Block := ⟨h.filterOffset, h.handlerOffset⟩

def blocks (h : Region) : List Block :=
  [h.protectedBlock, h.handlerBlock] ++ if h.isFilter then [h.filterBlock] else []

def Holds (h : Region) (pos : Nat) : Prop := ∃ b ∈ h.blocks, pos ∈ b

/-- The region has a filter, and the offset lies behind the handler of it. -/
def Trails (h : Region) (pos : Nat) : Prop :=
  h.isFilter ∧ 0 < h.filterOffset ∧ h.filterOffset ≤ min pos maxOffset ∧ h.handlerOffset ≤ pos ∧
    h.handlerEnd ≤ pos

instance (h : Region) (pos : Nat) : Decidable (h.Holds pos) :=
  inferInstanceAs (Decidable (∃ b ∈ h.blocks, pos ∈ b))

instance (h : Region) (pos : Nat) : Decidable (h.Trails pos) :=
  inferInstanceAs (Decidable (_ ∧ _))

variable {h cur : Region} {pos : Nat}

theorem protectedBlock_mem : h.protectedBlock ∈ h.blocks := by simp [blocks]

theorem handlerBlock_mem : h.handlerBlock ∈ h.blocks := by simp [blocks]

theorem mem_blocks {b : Block} (plain : h.isFilter = false) (hb : b ∈ h.blocks) :
    b = h.protectedBlock ∨ b = h.handlerBlock := by
  simpa [blocks, plain] using hb

theorem holds_iff : h.Holds pos ↔
    pos ∈ h.protectedBlock ∨ pos ∈ h.handlerBlock ∨ h.isFilter ∧ pos ∈ h.filterBlock := by
  cases plain : h.isFilter <;> simp [Holds, blocks, plain]

/-- Ends are offsets, so an offset past the largest one is in the same blocks as the largest one. -/
theorem tryContains_cap : h.tryContains (min pos maxOffset) ↔ pos ∈ h.protectedBlock := by
  have capped : h.tryEnd ≤ maxOffset := Nat.min_le_right _ _
  simp only [tryContains, Bool.and_eq_true, decide_eq_true_eq, Block.mem_def, protectedBlock]
  omega

theorem handlerContains_cap : h.handlerContains (min pos maxOffset) ↔ pos ∈ h.handlerBlock := by
  have capped : h.handlerEnd ≤ maxOffset := Nat.min_le_right _ _
  simp only [handlerContains, Bool.and_eq_true, decide_eq_true_eq, Block.mem_def, handlerBlock]
  omega

/-- What a region is taken for when no other was taken. -/
theorem takes_none : h.takes (min pos maxOffset) none ↔
    pos ∈ h.protectedBlock ∨ (0 < h.handlerOffset ∧ pos ∈ h.handlerBlock) ∨
      h.isFilter ∧ 0 < h.filterOffset ∧ h.filterOffset ≤ min pos maxOffset := by
  simp [takes, takesByTry, takesByHandler, takesByFilter, tryContains_cap, handlerContains_cap,
    and_assoc, or_assoc]

/-- What a region is taken for in place of another one. -/
theorem takes_some : h.takes (min pos maxOffset) (some cur) ↔
    (pos ∈ h.protectedBlock ∧ cur.tryOffset < h.tryOffset ∧ h.tryEnd < cur.tryEnd) ∨
      (0 < h.handlerOffset ∧ pos ∈ h.handlerBlock ∧ cur.handlerOffset < h.handlerOffset ∧
        h.handlerEnd < cur.handlerEnd) ∨
      h.isFilter ∧ 0 < h.filterOffset ∧ h.filterOffset ≤ min pos maxOffset ∧
        cur.filterOffset < h.filterOffset := by
  simp [takes, takesByTry, takesByHandler, takesByFilter, tryContains_cap, handlerContains_cap,
    and_assoc, or_assoc]

theorem takes_alone {taken : Option Region} (ht : h.takes (min pos maxOffset) taken) :
    h.takes (min pos maxOffset) none := by
  cases taken with
  | none => exact ht
  | some cur =>
    obtain ⟨inTry, -⟩ | ⟨positive, inHandler, -⟩ | ⟨filter, positive, started, -⟩ := takes_some.mp ht
    · exact takes_none.mpr (.inl inTry)
    · exact takes_none.mpr (.inr (.inl ⟨positive, inHandler⟩))
    · exact takes_none.mpr (.inr (.inr ⟨filter, positive, started⟩))

theorem holds_or_trails (ht : h.takes (min pos maxOffset) none) : h.Holds pos ∨ h.Trails pos := by
  obtain inTry | ⟨-, inHandler⟩ | ⟨filter, positive, started⟩ := takes_none.mp ht
  · exact .inl (holds_iff.mpr (.inl inTry))
  · exact .inl (holds_iff.mpr (.inr (.inl inHandler)))
  · by_cases holds : h.Holds pos
    · exact .inl holds
    · refine .inr ⟨filter, positive, started, ?_⟩
      simp only [holds_iff, filter, true_and, not_or, Block.mem_def, filterBlock,
        handlerBlock] at holds
      omega

theorem takes_of_trails (ht : h.Trails pos) : h.takes (min pos maxOffset) none :=
  takes_none.mpr (.inr (.inr ⟨ht.1, ht.2.1, ht.2.2.1⟩))

end Region

/-! ## The scan -/

section Scan

variable {pos index : Nat} {regions : List Region}

theorem regionFrom_stays {taken : Nat × Region}
    (stays : ∀ k ∈ regions, ¬ k.takes pos (some taken.2)) :
    regionFrom pos index (some taken) regions = some taken := by
  induction regions generalizing index with
  | nil => rfl
  | cons k rest ih =>
    have kept : ¬ k.takes pos (some taken.2) := stays k List.mem_cons_self
    simp only [regionFrom, Option.map_some, kept]
    exact ih fun k hk => stays k (List.mem_cons_of_mem _ hk)

/-- What is true of a region that is taken alone, and of a region that takes over from one of which
it is true, is true of the region the scan ends with. -/
theorem regionFrom_keeps (good : Nat → Region → Prop) {taken : Option (Nat × Region)}
    (before : ∀ i h, taken = some (i, h) → good i h)
    (step : ∀ i h cur, regions[i]? = some h → h.takes pos cur → good (index + i) h) :
    ∀ i h, regionFrom pos index taken regions = some (i, h) → good i h := by
  induction regions generalizing index taken with
  | nil => exact before
  | cons k rest ih =>
    refine ih (fun i h ht => ?_) fun i h cur hi ht => ?_
    · by_cases takes : k.takes pos (taken.map (·.2))
      · obtain ⟨rfl, rfl⟩ : index = i ∧ k = h := by simpa [takes] using ht
        exact step 0 k _ rfl takes
      · exact before i h (by simpa [takes] using ht)
    · rw [Nat.add_assoc, Nat.add_comm 1]
      exact step (i + 1) h cur (by simpa using hi) ht

theorem regionFrom_eq_none {taken : Option (Nat × Region)} :
    regionFrom pos index taken regions = none ↔
      taken = none ∧ ∀ h ∈ regions, ¬ h.takes pos none := by
  induction regions generalizing index taken with
  | nil => simp [regionFrom]
  | cons k rest ih =>
    rw [regionFrom, ih, List.forall_mem_cons]
    cases taken with
    | some taken => split <;> simp
    | none => by_cases takes : k.takes pos none <;> simp [takes]

end Scan

/-! ## Nested regions -/

/-- Regions without filters whose blocks are nested, listed innermost first.  A region has code to
protect and, behind it, code to handle exceptions with. -/
structure InnermostFirst (regions : List Region) : Prop where
  plain : ∀ h ∈ regions, h.isFilter = false
  protectedBlock : ∀ h ∈ regions, h.protectedBlock.Nonempty
  handlerBlock : ∀ h ∈ regions, h.handlerBlock.Nonempty
  handledLater : ∀ h ∈ regions, h.protectedBlock.stop ≤ h.handlerBlock.start
  nested : regions.Pairwise fun h k => ∀ a ∈ h.blocks, ∀ b ∈ k.blocks,
    a.Apart b ∨ a.Within b ∨ b.Within a
  innermost : regions.Pairwise fun h k => ∀ a ∈ h.blocks, ∀ b ∈ k.blocks, b.Within a → b = a

namespace InnermostFirst

variable {h k : Region} {rest regions : List Region} {pos : Nat}

theorem tail (nested : InnermostFirst (h :: rest)) : InnermostFirst rest where
  plain k hk := nested.plain k (List.mem_cons_of_mem _ hk)
  protectedBlock k hk := nested.protectedBlock k (List.mem_cons_of_mem _ hk)
  handlerBlock k hk := nested.handlerBlock k (List.mem_cons_of_mem _ hk)
  handledLater k hk := nested.handledLater k (List.mem_cons_of_mem _ hk)
  nested := nested.nested.of_cons
  innermost := nested.innermost.of_cons

/-- A region that holds the offset is taken when none was taken before: its handler does not start
at the first instruction. -/
theorem takes (nested : InnermostFirst regions) (hh : h ∈ regions) :
    h.takes (min pos maxOffset) none ↔ h.Holds pos := by
  have plain := nested.plain h hh
  have code := nested.protectedBlock h hh
  have later := nested.handledLater h hh
  have positive : 0 < h.handlerOffset := by
    simp only [Block.Nonempty, Region.protectedBlock, Region.handlerBlock] at code later
    omega
  simp [Region.takes_none, Region.holds_iff, plain, positive]

/-- No later region takes over from the first one. -/
theorem stays (nested : InnermostFirst (h :: rest)) (hk : k ∈ rest) :
    ¬ k.takes (min pos maxOffset) (some h) := by
  have plain := nested.plain k (List.mem_cons_of_mem _ hk)
  have innermost := List.rel_of_pairwise_cons nested.innermost hk
  rw [Region.takes_some]
  rintro (⟨-, starts, ends⟩ | ⟨-, -, starts, ends⟩ | ⟨filter, -⟩)
  · have same := innermost _ Region.protectedBlock_mem _ Region.protectedBlock_mem
      ⟨Nat.le_of_lt starts, Nat.le_of_lt ends⟩
    exact Nat.ne_of_gt starts (congrArg Block.start same)
  · have same := innermost _ Region.handlerBlock_mem _ Region.handlerBlock_mem ⟨Nat.le_of_lt starts, Nat.le_of_lt ends⟩
    exact Nat.ne_of_gt starts (congrArg Block.start same)
  · rw [plain] at filter
    cases filter

theorem eq_of_mem_mem (nested : InnermostFirst regions) (hh : h ∈ regions) {a b : Block}
    (ha : a ∈ h.blocks) (hb : b ∈ h.blocks) (posA : pos ∈ a) (posB : pos ∈ b) : a = b := by
  have plain := nested.plain h hh
  have apart : h.protectedBlock.Apart h.handlerBlock := .inl (nested.handledLater h hh)
  obtain rfl | rfl := Region.mem_blocks plain ha <;> obtain rfl | rfl := Region.mem_blocks plain hb
  · rfl
  · exact absurd apart (Block.not_apart posA posB)
  · exact absurd apart (Block.not_apart posB posA)
  · rfl

/-- A block that holds an offset lies in the block of a later region that holds it. -/
theorem within (nested : InnermostFirst (h :: rest)) (hk : k ∈ rest) {a b : Block}
    (ha : a ∈ h.blocks) (hb : b ∈ k.blocks) (posA : pos ∈ a) (posB : pos ∈ b) : a.Within b := by
  obtain apart | within | within := List.rel_of_pairwise_cons nested.nested hk a ha b hb
  · exact absurd apart (Block.not_apart posA posB)
  · exact within
  · rw [List.rel_of_pairwise_cons nested.innermost hk a ha b hb within]
    exact .refl a

/-- What the scan finds in nested regions: nothing when no region holds the offset, else the first
one that does. -/
theorem regionFrom_first (nested : InnermostFirst regions) (pos index : Nat) :
    ((∀ h ∈ regions, ¬ h.Holds pos) ∧
        regionFrom (min pos maxOffset) index none regions = none) ∨
      ∃ i h, regions[i]? = some h ∧
        regionFrom (min pos maxOffset) index none regions = some (index + i, h) ∧
        (∃ b ∈ h.blocks, pos ∈ b ∧ ∀ k ∈ regions, ∀ c ∈ k.blocks, pos ∈ c → b.Within c) ∧
        ∀ j < i, ∀ k, regions[j]? = some k → ¬ k.Holds pos := by
  induction regions generalizing index with
  | nil => exact .inl ⟨by simp, rfl⟩
  | cons h rest ih =>
    have taken : h.takes (min pos maxOffset) none ↔ h.Holds pos := nested.takes List.mem_cons_self
    by_cases holds : h.Holds pos
    · refine .inr ⟨0, h, rfl, ?_, ?_, by simp⟩
      · simp only [regionFrom, Option.map_none, taken.mpr holds, if_true, Nat.add_zero]
        exact regionFrom_stays fun k hk => nested.stays hk
      · obtain ⟨b, hb, inside⟩ := holds
        refine ⟨b, hb, inside, fun k hk c hc posC => ?_⟩
        obtain rfl | hk := List.mem_cons.mp hk
        · rw [nested.eq_of_mem_mem List.mem_cons_self hb hc inside posC]
          exact .refl c
        · exact nested.within hk hb hc inside posC
    · have skips : regionFrom (min pos maxOffset) index none (h :: rest) =
          regionFrom (min pos maxOffset) (index + 1) none rest := by
        simp [regionFrom, taken, holds]
      rw [skips]
      obtain ⟨nowhere, none⟩ | ⟨i, found, at_i, result, ⟨b, hb, inside, least⟩, first⟩ :=
        ih nested.tail (index + 1)
      · exact .inl ⟨List.forall_mem_cons.mpr ⟨holds, nowhere⟩, none⟩
      · refine .inr ⟨i + 1, found, by simpa using at_i, ?_, ⟨b, hb, inside, ?_⟩, ?_⟩
        · rw [result, Nat.add_assoc, Nat.add_comm 1]
        · rintro k (_ | ⟨_, hk⟩) c hc posC
          · exact absurd ⟨c, hc, posC⟩ holds
          · exact least k hk c hc posC
        · rintro (_ | j) hj k hk
          · obtain rfl : h = k := by simpa using hk
            exact holds
          · exact first j (by omega) k (by simpa using hk)

end InnermostFirst

/-- In nested regions without filters, listed innermost first, an offset is tagged exactly when a
block has it in it.  It is tagged with the first region that holds it, and the block of this region
that has it in it lies in all other blocks that do. -/
theorem enclosingRegion_innermost {regions : List Region} (nested : InnermostFirst regions)
    (pos : Nat) :
    (enclosingRegion regions pos = none ↔ ∀ h ∈ regions, ∀ b ∈ h.blocks, pos ∉ b) ∧
    ∀ i, enclosingRegion regions pos = some i → ∃ h, regions[i]? = some h ∧
      (∃ b ∈ h.blocks, pos ∈ b ∧ ∀ k ∈ regions, ∀ c ∈ k.blocks, pos ∈ c → b.Within c) ∧
      ∀ j < i, ∀ k, regions[j]? = some k → ∀ b ∈ k.blocks, pos ∉ b := by
  obtain ⟨nowhere, result⟩ | ⟨i, h, at_i, result, inner, first⟩ := nested.regionFrom_first pos 0
  · have untagged : enclosingRegion regions pos = none := by simp [enclosingRegion, result]
    refine ⟨⟨fun _ h hh b hb inside => nowhere h hh ⟨b, hb, inside⟩, fun _ => untagged⟩, ?_⟩
    simp [untagged]
  · have tagged : enclosingRegion regions pos = some i := by simp [enclosingRegion, result]
    obtain ⟨b, hb, inside, -⟩ := id inner
    refine ⟨⟨fun none => by simp [tagged] at none, fun nowhere => ?_⟩, fun i' hi' => ?_⟩
    · exact absurd inside (nowhere h (List.mem_of_getElem? at_i) b hb)
    · obtain rfl : i = i' := by simpa [tagged] using hi'
      exact ⟨h, at_i, inner, fun j hj k hk b hb inside => first j hj k hk ⟨b, hb, inside⟩⟩

/-- Three blocks that protect code one inside the other, the innermost in the handler of the next. -/
def nestedRegions : List Region :=
  [⟨.typed, 10, 4, 14, 2, 0, none⟩, ⟨.cleanup, 4, 4, 8, 10, 0, none⟩, ⟨.fault, 4, 14, 18, 6, 0, none⟩]

theorem enclosingRegion_innermost_three :
    InnermostFirst nestedRegions ∧ enclosingRegion nestedRegions 12 = some 0 ∧
      (enclosingRegion nestedRegions 30 = none ↔ ∀ h ∈ nestedRegions, ∀ b ∈ h.blocks, 30 ∉ b) :=
  have nested : InnermostFirst nestedRegions :=
    ⟨by decide, by decide, by decide, by decide, by decide, by decide⟩
  ⟨nested, by decide, (enclosingRegion_innermost nested 30).1⟩

/-! ## Arbitrary regions -/

section Outside

variable {regions : List Region} {pos index : Nat}

theorem regionFrom_sound {i : Nat} {h : Region}
    (found : regionFrom (min pos maxOffset) 0 none regions = some (i, h)) :
    regions[i]? = some h ∧ (h.Holds pos ∨ h.Trails pos) := by
  refine regionFrom_keeps (fun i h => regions[i]? = some h ∧ (h.Holds pos ∨ h.Trails pos)) (by simp)
    (fun i h cur at_i takes => ?_) i h found
  rw [Nat.zero_add]
  exact ⟨at_i, Region.holds_or_trails (Region.takes_alone takes)⟩

/-- Outside all blocks a region takes over from another one when its filter starts later. -/
theorem Region.takes_outside {h cur : Region} (outside : ¬ h.Holds pos) (trails : h.Trails pos) :
    h.takes (min pos maxOffset) (some cur) ↔ cur.filterOffset < h.filterOffset := by
  rw [Region.holds_iff, not_or, not_or] at outside
  simp [Region.takes_some, outside, trails.1, trails.2.1, trails.2.2.1]

/-- Outside all blocks no filter starts after that of the region the scan ends with. -/
theorem regionFrom_last {taken : Option (Nat × Region)} {i : Nat} {h : Region}
    (outside : ∀ k ∈ regions, ¬ k.Holds pos)
    (found : regionFrom (min pos maxOffset) index taken regions = some (i, h)) :
    (∀ j cur, taken = some (j, cur) → cur.filterOffset ≤ h.filterOffset) ∧
      ∀ k ∈ regions, k.Trails pos → k.filterOffset ≤ h.filterOffset := by
  induction regions generalizing index taken with
  | nil =>
    obtain rfl : taken = some (i, h) := found
    simp
  | cons k rest ih =>
    obtain ⟨here, later⟩ := ih (fun k hk => outside k (List.mem_cons_of_mem _ hk)) found
    have away := outside k List.mem_cons_self
    rw [List.forall_mem_cons]
    by_cases takes : k.takes (min pos maxOffset) (taken.map (·.2))
    · have reached := here index k (if_pos takes)
      refine ⟨?_, fun _ => reached, later⟩
      rintro j cur rfl
      have trails := (Region.holds_or_trails (Region.takes_alone takes)).resolve_left away
      exact Nat.le_trans (Nat.le_of_lt ((Region.takes_outside away trails).mp takes)) reached
    · have kept : ∀ j cur, taken = some (j, cur) → cur.filterOffset ≤ h.filterOffset :=
        fun j cur ht => here j cur ((if_neg takes).trans ht)
      refine ⟨kept, fun trails => ?_, later⟩
      cases taken with
      | none => exact absurd (Region.takes_of_trails trails) takes
      | some taken =>
        have starts := mt (Region.takes_outside away trails).mpr takes
        exact Nat.le_trans (Nat.le_of_not_lt starts) (kept taken.1 taken.2 rfl)

end Outside

/-- The region an offset is tagged with holds the offset, or has a filter and the offset lies behind
its handler.  An offset outside all blocks is tagged exactly when it lies behind the handler of some
region with a filter, and then with one whose filter starts last. -/
theorem enclosingRegion_sound (regions : List Region) (pos : Nat) :
    (∀ i, enclosingRegion regions pos = some i →
      ∃ h, regions[i]? = some h ∧ (h.Holds pos ∨ h.Trails pos)) ∧
    ((∀ h ∈ regions, ¬ h.Holds pos) →
      (enclosingRegion regions pos = none ↔ ∀ h ∈ regions, ¬ h.Trails pos) ∧
      ∀ i h, enclosingRegion regions pos = some i → regions[i]? = some h →
        ∀ k ∈ regions, k.Trails pos → k.filterOffset ≤ h.filterOffset) := by
  refine ⟨fun i tagged => ?_, fun outside => ⟨?_, fun i h tagged at_i => ?_⟩⟩
  · obtain ⟨⟨i, h⟩, found, rfl⟩ := Option.map_eq_some_iff.mp tagged
    exact ⟨h, regionFrom_sound found⟩
  · rw [enclosingRegion, Option.map_eq_none_iff, regionFrom_eq_none, eq_self, true_and]
    refine forall₂_congr fun h hh => not_congr ⟨fun takes => ?_, Region.takes_of_trails⟩
    exact (Region.holds_or_trails takes).resolve_left (outside h hh)
  · obtain ⟨⟨i, h'⟩, found, rfl⟩ := Option.map_eq_some_iff.mp tagged
    obtain rfl : h' = h := by simpa [(regionFrom_sound found).1] using at_i
    exact (regionFrom_last outside found).2

/-- A region with a filter is tagged at an offset behind its handler. -/
theorem enclosingRegion_trailing :
    ¬ ∀ (regions : List Region) (pos i : Nat), enclosingRegion regions pos = some i →
      ∃ h, regions[i]? = some h ∧ h.Holds pos := by
  intro sound
  obtain ⟨h, at_0, holds⟩ := sound [⟨.filter, 0, 2, 4, 2, 2, none⟩] 10 0 (by decide)
  obtain rfl : (⟨.filter, 0, 2, 4, 2, 2, none⟩ : Region) = h := by simpa using at_0
  exact absurd holds (by decide)

end ProgramScan
