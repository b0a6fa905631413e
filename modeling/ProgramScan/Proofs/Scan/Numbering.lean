import ProgramScan.Proofs.Registry.MethodInstances

/-!
# Numbers of methods

The number of a method is stored under its own identity and under that of the method that introduced
its slot.  Requests can come in any order, so an override can be numbered before or after the method
that it overrides.

* `Uids.requests`            numbers asked for one after the other;
* `Uids.Answered`            what one request does to the table;
* `Uids.Numbered`            the invariant of the table: methods have the numbers of their owners, and
                             owners have numbers of their own;
* `Uids.requests_numbered`   what any sequence of requests makes of an empty table.
-/

namespace ProgramScan

namespace Uids

variable {r : Registry} {u u' : Uids} {m : MethodId} {n : Nat}

/-- Numbers asked for one after the other: every request with its answer, and the table afterwards. -/
def requests (r : Registry) : Uids → List MethodId → List (MethodId × Nat) × Uids
  | u, [] => ([], u)
  | u, m :: ms =>
    let answer := u.methodUid r m
    let rest := requests r answer.2 ms
    ((m, answer.1) :: rest.1, rest.2)

def ownerKey (r : Registry) (m : MethodId) : String := r.methodKey (r.uidOwner m)

/-- `u'` is `u` after `m` got the number `n`: entries stay, and the new ones, if any, are for `m` and
its owner.  The number was there under the owner, or it is the next one. -/
structure Answered (r : Registry) (u : Uids) (m : MethodId) (n : Nat) (u' : Uids) : Prop where
  stays : ∀ key k, u.methods.get? key = some k → u'.methods.get? key = some k
  own : u'.methods.get? (r.methodKey m) = some n
  owner : u'.methods.get? (ownerKey r m) = some n
  new : ∀ key k, u'.methods.get? key = some k →
    u.methods.get? key = some k ∨ k = n ∧ (key = r.methodKey m ∨ key = ownerKey r m)
  count : u.methods.get? (ownerKey r m) = some n ∧ u'.methodCount = u.methodCount ∨
    u.methods.get? (ownerKey r m) = none ∧ n = u.methodCount ∧ u'.methodCount = u.methodCount + 1

/-- Methods of the program have the numbers of their owners, different owners have different numbers,
and numbers are counted from zero. -/
structure Numbered (r : Registry) (u : Uids) : Prop where
  known : ∀ m n, r.Has (.method m) → u.methods.get? (r.methodKey m) = some n →
    u.methods.get? (ownerKey r m) = some n
  distinct : ∀ a b n, r.Has (.method a) → r.Has (.method b) →
    u.methods.get? (ownerKey r a) = some n → u.methods.get? (ownerKey r b) = some n →
      ownerKey r a = ownerKey r b
  below : ∀ key n, u.methods.get? key = some n → n < u.methodCount

theorem numbered_empty (r : Registry) : Numbered r {} :=
  ⟨fun _ _ _ h => (nomatch h), fun _ _ _ _ _ h => (nomatch h), fun _ _ h => (nomatch h)⟩

theorem requests_map_fst (r : Registry) (u : Uids) (ms : List MethodId) :
    (requests r u ms).1.map Prod.fst = ms := by
  induction ms generalizing u with
  | nil => rfl
  | cons m ms ih => simp only [requests, List.map_cons, ih]

theorem mem_of_answer {ms : List MethodId} {a : MethodId × Nat} (h : a ∈ (requests r u ms).1) :
    a.1 ∈ ms := by
  rw [← requests_map_fst r u ms]
  exact List.mem_map_of_mem h

/-! ## one request -/

/-- a number that is stored is the answer, and nothing changes -/
theorem methodUid_of_known (h : u.methods.get? (r.methodKey m) = some n) :
    u.methodUid r m = (n, u) := by
  unfold methodUid
  simp only [h]

/-- the table after `m` is stored with the number of its owner -/
theorem get?_insertNew_own {t : Table String Nat} {own owner : String} {n : Nat}
    (hown : t.get? own = none ∨ own = owner ∧ t.get? own = some n) (hn : t.get? owner = some n) :
    (t.insertNew own n).get? own = some n ∧ (t.insertNew own n).get? owner = some n ∧
      ∀ key k, (t.insertNew own n).get? key = some k → t.get? key = some k ∨ k = n ∧ key = own := by
  have howner : (t.insertNew own n).get? owner = some n := t.get?_insertNew_of_some n hn
  refine ⟨?_, howner, fun key k hk => ?_⟩
  · rcases hown with hnone | ⟨rfl, -⟩
    · unfold Table.insertNew
      rw [if_neg (by simp [Table.contains, hnone]), Table.get?_insert_self]
    · exact howner
  · unfold Table.insertNew at hk
    split at hk
    · exact .inl hk
    · by_cases hkey : key = own
      · subst hkey
        rw [Table.get?_insert_self] at hk
        cases hk
        exact .inr ⟨rfl, rfl⟩
      · rw [Table.get?_insert_of_ne _ _ hkey] at hk
        exact .inl hk

theorem answered_methodUid (hu : Numbered r u) (hm : r.Has (.method m)) :
    Answered r u m (u.methodUid r m).1 (u.methodUid r m).2 := by
  cases hown : u.methods.get? (r.methodKey m) with
  | some n =>
    rw [methodUid_of_known hown]
    have howner := hu.known m n hm hown
    exact ⟨fun _ _ h => h, hown, howner, fun _ _ h => .inl h, .inl ⟨howner, rfl⟩⟩
  | none =>
    unfold methodUid numberOf
    simp only [hown]
    cases howner : u.methods.get? (r.methodKey (r.uidOwner m)) with
    | some n =>
      simp only
      obtain ⟨h₁, h₂, h₃⟩ := get?_insertNew_own (.inl hown) howner
      refine ⟨fun key k hk => u.methods.get?_insertNew_of_some n hk, h₁, h₂, fun key k hk => ?_,
        .inl ⟨howner, rfl⟩⟩
      exact (h₃ key k hk).imp id fun h => ⟨h.1, .inl h.2⟩
    | none =>
      simp only
      let t := u.methods.insert (r.methodKey (r.uidOwner m)) u.methodCount
      have hnew : t.get? (r.methodKey (r.uidOwner m)) = some u.methodCount :=
        Table.get?_insert_self _ _ _
      have hold : ∀ key, key ≠ r.methodKey (r.uidOwner m) → t.get? key = u.methods.get? key :=
        fun key hne => Table.get?_insert_of_ne _ _ hne
      have hbefore : t.get? (r.methodKey m) = none ∨
          r.methodKey m = r.methodKey (r.uidOwner m) ∧
            t.get? (r.methodKey m) = some u.methodCount := by
        by_cases hk : r.methodKey m = r.methodKey (r.uidOwner m)
        · exact .inr ⟨hk, by rw [hk]; exact hnew⟩
        · exact .inl (by rw [hold _ hk, hown])
      obtain ⟨h₁, h₂, h₃⟩ := get?_insertNew_own hbefore hnew
      have hstays : ∀ key k, u.methods.get? key = some k → t.get? key = some k := by
        intro key k hk
        rw [hold key (by rintro rfl; rw [howner] at hk; cases hk)]
        exact hk
      refine ⟨fun key k hk => t.get?_insertNew_of_some _ (hstays key k hk), h₁, h₂,
        fun key k hk => ?_, .inr ⟨howner, rfl, rfl⟩⟩
      rcases h₃ key k hk with hk | ⟨rfl, rfl⟩
      · by_cases hkey : key = r.methodKey (r.uidOwner m)
        · subst hkey
          rw [hnew] at hk
          cases hk
          exact .inr ⟨rfl, .inr rfl⟩
        · rw [hold key hkey] at hk
          exact .inl hk
      · exact .inr ⟨rfl, .inl rfl⟩

namespace Answered

theorem lt (h : Answered r u m n u') (hu : Numbered r u) : n < u'.methodCount := by
  rcases h.count with ⟨hn, hc⟩ | ⟨-, hn, hc⟩
  · rw [hc]
    exact hu.below _ _ hn
  · omega

theorem count_le (h : Answered r u m n u') : u.methodCount ≤ u'.methodCount := by
  rcases h.count with ⟨-, hc⟩ | ⟨-, -, hc⟩ <;> omega

/-- a number that was not handed out before is the one that is handed out now -/
theorem eq_of_le (h : Answered r u m n u') {k : Nat} (hk : u.methodCount ≤ k)
    (hk' : k < u'.methodCount) : k = n := by
  rcases h.count with ⟨-, hc⟩ | ⟨-, hn, hc⟩ <;> omega

end Answered

section
variable (hw : r.WellFormed) (ho : r.Owned) (hr : r.Acyclic)
  (hkeys : r.MethodKeysDistinct)
include hw ho hr hkeys

theorem ownerKey_eq_of_methodKey {a b : MethodId} (ha : r.Has (.method a)) (hb : r.Has (.method b))
    (h : r.methodKey a = ownerKey r b) : ownerKey r a = ownerKey r b := by
  have hab := hkeys a _ ha (hw.uidOwner hb) h
  rw [ownerKey, hab, Registry.uidOwner_uidOwner hw ho hr hb, ownerKey]

theorem Answered.new_owner (h : Answered r u m n u') (hm : r.Has (.method m)) {a : MethodId}
    (ha : r.Has (.method a)) {k : Nat} (hk : u'.methods.get? (ownerKey r a) = some k) :
    u.methods.get? (ownerKey r a) = some k ∨ k = n ∧ ownerKey r a = ownerKey r m := by
  rcases h.new _ k hk with hold | ⟨rfl, hkey | hkey⟩
  · exact .inl hold
  · exact .inr ⟨rfl, (ownerKey_eq_of_methodKey hw ho hr hkeys hm ha hkey.symm).symm⟩
  · exact .inr ⟨rfl, hkey⟩

theorem Answered.numbered (h : Answered r u m n u') (hu : Numbered r u) (hm : r.Has (.method m)) :
    Numbered r u' where
  known a k ha hk := by
    rcases h.new _ k hk with hold | ⟨rfl, hkey | hkey⟩
    · exact h.stays _ _ (hu.known a k ha hold)
    · rw [hkeys a m ha hm hkey]
      exact h.owner
    · rw [ownerKey_eq_of_methodKey hw ho hr hkeys ha hm hkey]
      exact h.owner
  distinct a b k ha hb hka hkb := by
    -- what is stored under an owner that was there has the same number as an older entry
    have hmixed : ∀ c, r.Has (.method c) → u.methods.get? (ownerKey r c) = some n →
        ownerKey r m = ownerKey r c := by
      intro c hc hcn
      rcases h.count with ⟨hn, -⟩ | ⟨-, hn, -⟩
      · exact hu.distinct m c n hm hc hn hcn
      · exact absurd (hu.below _ _ hcn) (by omega)
    rcases h.new_owner hw ho hr hkeys hm ha hka with hka | ⟨rfl, hka⟩
    · rcases h.new_owner hw ho hr hkeys hm hb hkb with hkb | ⟨rfl, hkb⟩
      · exact hu.distinct a b k ha hb hka hkb
      · rw [hkb, hmixed a ha hka]
    · rcases h.new_owner hw ho hr hkeys hm hb hkb with hkb | ⟨-, hkb⟩
      · rw [hka, hmixed b hb hkb]
      · rw [hka, hkb]
  below key k hk := by
    rcases h.new key k hk with hold | ⟨rfl, -⟩
    · exact Nat.lt_of_lt_of_le (hu.below key k hold) h.count_le
    · exact h.lt hu

/-! ## requests -/

theorem requests_spec {ms : List MethodId} (hu : Numbered r u)
    (hms : ∀ m ∈ ms, r.Has (.method m)) :
    Numbered r (requests r u ms).2 ∧
      (∀ key k, u.methods.get? key = some k → (requests r u ms).2.methods.get? key = some k) ∧
      (∀ a ∈ (requests r u ms).1, (requests r u ms).2.methods.get? (r.methodKey a.1) = some a.2) ∧
      u.methodCount ≤ (requests r u ms).2.methodCount ∧
      ∀ k, u.methodCount ≤ k → k < (requests r u ms).2.methodCount →
        ∃ a ∈ (requests r u ms).1, a.2 = k := by
  induction ms generalizing u with
  | nil =>
    refine ⟨hu, fun _ _ h => h, by simp [requests], Nat.le_refl _, fun k hk hk' => ?_⟩
    exact absurd hk (Nat.not_le.mpr hk')
  | cons m ms ih =>
    have hm := hms m List.mem_cons_self
    have hanswer := answered_methodUid hu hm
    have hu' := hanswer.numbered hw ho hr hkeys hu hm
    obtain ⟨hnum, hstays, hans, hcount, hused⟩ :=
      ih hu' fun c hc => hms c (List.mem_cons_of_mem _ hc)
    refine ⟨hnum, fun key k hk => hstays key k (hanswer.stays key k hk), fun a ha => ?_,
      Nat.le_trans hanswer.count_le hcount, fun k hk hk' => ?_⟩
    · rcases List.mem_cons.mp ha with rfl | ha
      · exact hstays _ _ hanswer.own
      · exact hans a ha
    · by_cases hlt : k < (u.methodUid r m).2.methodCount
      · exact ⟨_, List.mem_cons_self, (hanswer.eq_of_le hk hlt).symm⟩
      · obtain ⟨a, ha, hak⟩ := hused k (Nat.not_lt.mp hlt) hk'
        exact ⟨a, List.mem_cons_of_mem _ ha, hak⟩

theorem answers_eq_iff {ms : List MethodId} (hms : ∀ m ∈ ms, r.Has (.method m))
    {a b : MethodId × Nat} (ha : a ∈ (requests r {} ms).1) (hb : b ∈ (requests r {} ms).1) :
    a.2 = b.2 ↔ ownerKey r a.1 = ownerKey r b.1 := by
  obtain ⟨hnum, -, hans, -⟩ := requests_spec hw ho hr hkeys (numbered_empty r) hms
  have hown := hnum.known _ _ (hms _ (mem_of_answer ha)) (hans a ha)
  have hown' := hnum.known _ _ (hms _ (mem_of_answer hb)) (hans b hb)
  constructor
  · intro h
    rw [h] at hown
    exact hnum.distinct _ _ _ (hms _ (mem_of_answer ha)) (hms _ (mem_of_answer hb)) hown hown'
  · intro h
    rw [h, hown'] at hown
    exact (Option.some.inj hown).symm

end

/-- **Numbers follow slots**, in whatever order and how often they are asked for.  Two methods have the
same number if and only if the methods that introduced their slots are the same, interface methods
counting for themselves; a method that is asked for again has the same number; a method and the one
that it overrides in a class have the same number; and the numbers are counted from zero. -/
theorem requests_numbered (hb : r.Built) (hr : r.Acyclic) (hkeys : r.MethodKeysDistinct)
    {ms : List MethodId} (hms : ∀ m ∈ ms, r.Has (.method m)) :
    (requests r {} ms).1.map Prod.fst = ms ∧
    (∀ a ∈ (requests r {} ms).1, ∀ b ∈ (requests r {} ms).1,
      (a.2 = b.2 ↔ r.methodKey (r.uidOwner a.1) = r.methodKey (r.uidOwner b.1)) ∧
      (a.1 = b.1 → a.2 = b.2) ∧
      (r.overridden? a.1 = some b.1 → ¬ r.OnInterface a.1 → ¬ r.OnInterface b.1 → a.2 = b.2)) ∧
    (∀ a ∈ (requests r {} ms).1,
      (requests r {} ms).2.methodUid r a.1 = (a.2, (requests r {} ms).2)) ∧
    ∀ n, (∃ a ∈ (requests r {} ms).1, a.2 = n) ↔ n < (requests r {} ms).2.methodCount := by
  have hw := hb.wellFormed
  have ho := hb.owned
  obtain ⟨hnum, -, hans, -, hused⟩ := requests_spec hw ho hr hkeys (numbered_empty r) hms
  refine ⟨requests_map_fst r {} ms, fun a ha b hb => ?_, fun a ha => ?_, fun n => ⟨?_, fun hn => ?_⟩⟩
  · have hiff := answers_eq_iff hw ho hr hkeys hms ha hb
    refine ⟨hiff, fun h => hiff.mpr (by rw [h]), fun hover hia hib => hiff.mpr ?_⟩
    rw [ownerKey, ownerKey,
      Registry.uidOwner_overridden hw ho hr (hms _ (mem_of_answer ha)) hover hia hib]
  · exact methodUid_of_known (hans a ha)
  · rintro ⟨a, ha, rfl⟩
    exact hnum.below _ _ (hans a ha)
  · exact hused n (Nat.zero_le n) hn

/-- A class with a virtual method, two classes below it that override the method, and an interface that
declares one of its name. -/
def runnerEdits : List Edit :=
  [.addModule "App", .declareType { module := ⟨1⟩, namespaceName := "App", name := "Root" },
    .declareType { module := ⟨1⟩, namespaceName := "App", name := "Mid", base := .explicit ⟨20⟩ },
    .declareType { module := ⟨1⟩, namespaceName := "App", name := "Leaf", base := .explicit ⟨21⟩ },
    .declareType { module := ⟨1⟩, namespaceName := "App", name := "Runner", kind := .interface },
    .declareMethod { module := ⟨1⟩, name := "Run", declaring := some ⟨20⟩, modifiers :=
      MethodFlags.isVirtual ||| MethodFlags.newSlot },
    .declareMethod { module := ⟨1⟩, name := "Run", declaring := some ⟨21⟩, modifiers :=
      MethodFlags.isVirtual },
    .declareMethod { module := ⟨1⟩, name := "Run", declaring := some ⟨22⟩, modifiers :=
      MethodFlags.isVirtual },
    .declareMethod { module := ⟨1⟩, name := "Run", declaring := some ⟨23⟩, modifiers :=
      MethodFlags.isVirtual ||| MethodFlags.newSlot }]

/-- the override in the last class is asked for before the methods above it -/
theorem requests_numbered_runner :
    (requests (Registry.core.applyAll runnerEdits) {} [⟨2⟩, ⟨3⟩, ⟨0⟩, ⟨1⟩, ⟨2⟩]).1 =
      [(⟨2⟩, 0), (⟨3⟩, 1), (⟨0⟩, 0), (⟨1⟩, 0), (⟨2⟩, 0)] ∧
    ∀ n, (∃ a ∈ (requests (Registry.core.applyAll runnerEdits) {} [⟨2⟩, ⟨3⟩, ⟨0⟩, ⟨1⟩, ⟨2⟩]).1,
      a.2 = n) ↔ n < 2 := by
  let ms : List MethodId := [⟨2⟩, ⟨3⟩, ⟨0⟩, ⟨1⟩, ⟨2⟩]
  obtain ⟨hfits, hbases, hms, hkeys, hanswers, htotal⟩ :
      Registry.FitAll Registry.core runnerEdits ∧
      (∀ i < (Registry.core.applyAll runnerEdits).types.size,
        ((Registry.core.applyAll runnerEdits).type ⟨i⟩).base.all (·.index < i) = true) ∧
      (∀ m ∈ ms, (Registry.core.applyAll runnerEdits).Has (.method m)) ∧
      (Registry.core.applyAll runnerEdits).MethodKeysDistinct ∧
      (requests (Registry.core.applyAll runnerEdits) {} ms).1 =
        [(⟨2⟩, 0), (⟨3⟩, 1), (⟨0⟩, 0), (⟨1⟩, 0), (⟨2⟩, 0)] ∧
      (requests (Registry.core.applyAll runnerEdits) {} ms).2.methodCount = 2 := by
    decide +kernel
  obtain ⟨-, -, -, hcount⟩ := requests_numbered (Registry.Built.core.applyAll hfits)
    (Registry.acyclic_of_base_lt hbases) hkeys hms
  rw [htotal] at hcount
  exact ⟨hanswers, hcount⟩

end Uids

end ProgramScan
