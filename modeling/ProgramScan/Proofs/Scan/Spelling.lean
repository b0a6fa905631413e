import ProgramScan.Proofs.Registry.Identity
import ProgramScan.Proofs.Scan.Labels
import ProgramScan.Proofs.Text.Bytes
import ProgramScan.Proofs.Text.Squares

/-!
# Characters of labels

A label is made for an assembler, which does not accept the characters that join the parts of names.
Of these all but the brackets of arrays are spelled out or dropped, and the brackets of an array are
if it has one dimension or two.

* `IsLegalLabel`              a label without illegal characters;
* `Registry.Deep`             an array of three or more dimensions stands in the name of a type;
* `Grouped`                   how far the square brackets of a name are known;
* `isLegalLabel_finalLabel_iff`   the labels of methods that are legal;
* `finalLabel_illegal`        one that is not.
-/

namespace ProgramScan

open Text

/-- no character that an identifier cannot hold, and no bar -/
def IsLegalLabel (label : String) : Prop := ∀ c ∈ label.toList, c ∉ illegalInIdentifier ∧ c ≠ '|'

instance (label : String) : Decidable (IsLegalLabel label) :=
  List.decidableBAll (fun c => c ∉ illegalInIdentifier ∧ c ≠ '|') label.toList

/-! ## digests -/

def digestDigits : List Char := "0123456789ABCDEF".toList

theorem digit_mem {d : Nat} (hd : d < 16) : d.digitChar.toUpper ∈ digestDigits := by
  have hall : ∀ d < 16, d.digitChar.toUpper ∈ digestDigits := by decide
  exact hall d hd

theorem hexUpper_byte (b : UInt8) : ∃ c d, (Text.hexUpper 2 b.toNat).toList = [c, d] ∧
    c ∈ digestDigits ∧ d ∈ digestDigits := by
  have hb : b.toNat < 256 := b.toNat_lt
  rw [Text.hexUpper, String.toList_ofList]
  rcases Nat.lt_or_ge b.toNat 16 with hn | hn
  · rw [Nat.toDigits_of_lt_base hn]
    exact ⟨'0', _, rfl, by decide, digit_mem hn⟩
  · rw [Nat.toDigits_of_base_le (by decide) hn,
      Nat.toDigits_of_lt_base (show b.toNat / 16 < 16 by omega)]
    exact ⟨_, _, rfl, digit_mem (by omega), digit_mem (Nat.mod_lt _ (by decide))⟩

theorem length_digestText (text : List Char) : (digestText text).length = 32 := by
  have hbyte (b : UInt8) : (Text.hexUpper 2 b.toNat).toList.length = 2 := by
    obtain ⟨c, d, hcd, -⟩ := hexUpper_byte b
    rw [hcd]
    rfl
  rw [digestText, List.length_flatMap, List.map_congr_left fun b _ => hbyte b]
  simp [Md5.length_digest]

theorem mem_digestText {text : List Char} {c : Char} (h : c ∈ digestText text) :
    c ∈ digestDigits := by
  obtain ⟨b, -, hb⟩ := List.mem_flatMap.mp h
  obtain ⟨d, e, hde, hd, he⟩ := hexUpper_byte b
  rw [hde, List.mem_cons, List.mem_singleton] at hb
  rcases hb with rfl | rfl
  · exact hd
  · exact he

/-! ## labels of texts -/

theorem length_labelText (text : List Char) : (labelText text).length ≤ maxLabelLength := by
  rcases Nat.lt_or_ge maxLabelLength text.length with h | h
  · rw [labelText_of_long h, List.length_append, List.length_take, length_digestText]
    unfold maxLabelLength
    omega
  · rw [labelText_of_short h]
    exact h

theorem mem_labelText {text : List Char} {c : Char} (h : c ∈ labelText text) :
    c ∈ text ∨ c ∈ digestDigits := by
  rcases Nat.lt_or_ge maxLabelLength text.length with hl | hl
  · rw [labelText_of_long hl] at h
    rcases List.mem_append.mp h with h | h
    · exact .inl (List.mem_of_mem_take h)
    · exact .inr (mem_digestText h)
  · rw [labelText_of_short hl] at h
    exact .inl h

/-- A property of the characters of a text, found by going through the text only. -/
theorem forall_mem_of_all {p : Char → Prop} [DecidablePred p] {text : List Char}
    (h : (text.all fun c => decide (p c)) = true) : ∀ c ∈ text, p c :=
  fun c hc => of_decide_eq_true (List.all_eq_true.mp h c hc)

/-- what is dropped from labels, and square brackets -/
theorem mem_illegalInIdentifier {c : Char} :
    c ∈ illegalInIdentifier ↔ c ∈ illegalInLabel ∨ c = '[' ∨ c = ']' := by
  have hsub : ∀ d ∈ illegalInIdentifier, d ∈ illegalInLabel ∨ d = '[' ∨ d = ']' :=
    forall_mem_of_all (by decide +kernel)
  have hsup : ∀ d ∈ illegalInLabel ++ ['[', ']'], d ∈ illegalInIdentifier :=
    forall_mem_of_all (by decide +kernel)
  exact ⟨hsub c, fun h => hsup c (by simpa using h)⟩

theorem bracket_of_illegal {name : String} {c : Char} (h : c ∈ (finalLabel name).toList)
    (hc : c ∈ illegalInIdentifier ∨ c = '|') :
    (c = '[' ∨ c = ']') ∧ c ∈ spelledOut name.toList := by
  have hdigits : ∀ d ∈ digestDigits, d ∉ illegalInIdentifier ∧ d ≠ '|' :=
    forall_mem_of_all (by decide +kernel)
  rw [finalLabel_eq, String.toList_ofList] at h
  rcases mem_labelText h with htext | hdigest
  · obtain ⟨hlabel, hbar⟩ := legal_of_mem_spelledOut htext
    have hillegal := hc.resolve_right hbar
    exact ⟨(mem_illegalInIdentifier.mp hillegal).resolve_left hlabel, htext⟩
  · exact absurd hc (not_or.mpr (hdigits c hdigest))

/-! ## square brackets in names -/

/-- Square brackets stand in `s` in groups, and one has more than one comma if and only if `p`. -/
def Grouped (s : String) (p : Prop) : Prop :=
  ∃ ks, Squared s.toList ks ∧ ((∃ k ∈ ks, 2 ≤ k) ↔ p)

namespace Grouped

variable {s t : String} {p q : Prop}

theorem of_unbracketed (h : Unbracketed s.toList) : Grouped s False :=
  ⟨[], .of_unbracketed h, by simp⟩

theorem group (k : Nat) : Grouped (String.ofList (Text.group k)) (2 ≤ k) := by
  refine ⟨[k], ?_, by simp⟩
  have h := Squared.group k .nil
  rwa [List.append_nil, ← String.toList_ofList (l := Text.group k)] at h

theorem congr (h : Grouped s p) (hpq : p ↔ q) : Grouped s q := by
  obtain ⟨ks, hks, hp⟩ := h
  exact ⟨ks, hks, hp.trans hpq⟩

theorem append (hs : Grouped s p) (ht : Grouped t q) : Grouped (s ++ t) (p ∨ q) := by
  obtain ⟨ks, hks, hp⟩ := hs
  obtain ⟨ls, hls, hq⟩ := ht
  refine ⟨ks ++ ls, ?_, ?_⟩
  · rw [String.toList_append]
    exact hks.append hls
  · rw [← hp, ← hq]
    simp only [List.mem_append, or_and_right, exists_or]

/-- text without brackets in front or behind -/
theorem plain_append (ht : Unbracketed t.toList) (hs : Grouped s p) : Grouped (t ++ s) p :=
  ((of_unbracketed ht).append hs).congr (by rw [false_or])

theorem append_plain (hs : Grouped s p) (ht : Unbracketed t.toList) : Grouped (s ++ t) p :=
  (hs.append (of_unbracketed ht)).congr (by rw [or_false])

theorem intercalate {α : Type} {sep : String} (hsep : Unbracketed sep.toList) {name : α → String}
    {deep : α → Prop} : ∀ {xs : List α}, (∀ x ∈ xs, Grouped (name x) (deep x)) →
      Grouped (sep.intercalate (xs.map name)) (∃ x ∈ xs, deep x)
  | [], _ => (of_unbracketed (s := "") (by decide)).congr (by simp)
  | [x], h => by
    rw [List.map_singleton, String.intercalate_singleton]
    exact (h x List.mem_cons_self).congr (by simp)
  | x :: y :: xs, h => by
    obtain ⟨hx, hrest⟩ := List.forall_mem_cons.mp h
    rw [List.map_cons, List.map_cons, String.intercalate_cons_cons, ← List.map_cons]
    refine ((hx.append_plain hsep).append (intercalate hsep hrest)).congr ?_
    simp only [List.exists_mem_cons_iff]

end Grouped

namespace Registry

/-- Modules, methods and the types that are not made from others have names without square
brackets. -/
structure PlainNames (r : Registry) : Prop where
  modules : ∀ d ∈ r.modules.toList, Unbracketed d.name.toList
  methods : ∀ d ∈ r.methods.toList, Unbracketed d.name.toList
  types : ∀ d ∈ r.types.toList, (d.form.isDefinition || d.form.isParameter) = true →
    Unbracketed d.fullName.toList

instance (r : Registry) : Decidable r.PlainNames :=
  decidable_of_iff (_ ∧ _ ∧ _) ⟨fun h => ⟨h.1, h.2.1, h.2.2⟩, fun h => ⟨h.1, h.2, h.3⟩⟩

/-- An array of three or more dimensions stands in the name of a type. -/
inductive Deep (r : Registry) : TypeId → Prop
  | array {t e : TypeId} {rank : Nat} (hf : (r.type t).form = .constructed (.array rank) e)
      (h : 3 ≤ rank) : Deep r t
  | element {t e : TypeId} {shape : Shape} (hf : (r.type t).form = .constructed shape e)
      (h : Deep r e) : Deep r t
  | argument {t d a : TypeId} {kind : TypeKind} {args : List TypeId}
      (hf : (r.type t).form = .instantiated kind d args) (ha : a ∈ args) (h : Deep r a) : Deep r t

variable {r : Registry} {t : TypeId} {m : MethodId}

/-! ## deep types -/

theorem not_deep (hf : ((r.type t).form.isDefinition || (r.type t).form.isParameter) = true) :
    ¬ r.Deep t := by
  intro h
  cases h with
  | array hf' _ | element hf' _ | argument hf' _ _ =>
    rw [hf'] at hf
    cases hf

theorem deep_constructed_iff {shape : Shape} {e : TypeId}
    (hf : (r.type t).form = .constructed shape e) :
    r.Deep t ↔ r.Deep e ∨ ∃ rank, shape = .array rank ∧ 3 ≤ rank := by
  constructor
  · intro h
    cases h with
    | array hf' hrank =>
      cases hf.symm.trans hf'
      exact .inr ⟨_, rfl, hrank⟩
    | element hf' h =>
      cases hf.symm.trans hf'
      exact .inl h
    | argument hf' _ _ => cases hf.symm.trans hf'
  · rintro (h | ⟨rank, rfl, hrank⟩)
    · exact .element hf h
    · exact .array hf hrank

theorem deep_instantiated_iff {kind : TypeKind} {d : TypeId} {args : List TypeId}
    (hf : (r.type t).form = .instantiated kind d args) : r.Deep t ↔ ∃ a ∈ args, r.Deep a := by
  constructor
  · intro h
    cases h with
    | array hf' _ | element hf' _ => cases hf.symm.trans hf'
    | argument hf' ha h =>
      cases hf.symm.trans hf'
      exact ⟨_, ha, h⟩
  · rintro ⟨a, ha, h⟩
    exact .argument hf ha h

/-! ## names of types and methods -/

theorem grouped_render (shape : Shape) {s : String} {p : Prop} (h : Grouped s p) :
    Grouped (shape.render s) (p ∨ ∃ rank, shape = .array rank ∧ 3 ≤ rank) := by
  cases shape with
  | szArray => exact (h.append (Grouped.group 0)).congr (by simp)
  | pointer => exact (h.append_plain (t := "*") (by decide)).congr (by simp)
  | byRef => exact (Grouped.plain_append (t := "&") (by decide) h).congr (by simp)
  | array rank =>
    have hgroup : (Shape.array rank).render s = s ++ String.ofList (group (rank - 1)) := by
      simp [Shape.render, group, ← String.toList_inj]
    rw [hgroup]
    refine (h.append (Grouped.group _)).congr (or_congr_right ?_)
    constructor
    · exact fun hrank => ⟨rank, rfl, by omega⟩
    · rintro ⟨_, heq, hrank⟩
      cases heq
      omega

/-- the types that the name of a method shows are types of the program -/
theorem WellFormed.methodUses (hw : r.WellFormed) (hm : r.Has (.method m))
    (ht : t ∈ r.methodUses m) : r.Has (.type t) := by
  simp only [Registry.methodUses, resultUses, List.mem_append, Option.mem_toList] at ht
  rcases ht with ((ht | ht) | ht) | ht
  · split at ht
    · cases ht
    · rw [List.mem_singleton.mp ht]
      exact hw.returnType hm
  · exact hw.declaring hm ht
  · split at ht
    · exact hw.genericArg hm ht
    · cases ht
  · obtain ⟨p, hp, rfl⟩ := List.mem_map.mp ht
    exact hw.param hm (List.mem_map_of_mem (mem_of_mem_shownParams hp))

theorem methodName_eq_elim (r : Registry) (m : MethodId) : r.methodName m =
    (if (r.method m).isConstructor then "System.Void" else r.fullName (r.method m).returnType) ++
      "  " ++ (r.method m).declaring.elim "dynamic_method" r.fullName ++ "." ++
      (r.method m).name ++
      (if (r.method m).isGenericInstance && !(r.method m).genericArgs.isEmpty then
        "<" ++ r.nameList (r.method m).genericArgs ++ ">" else "") ++
      "(" ++ r.nameList ((shownParams (r.method m).params).map (·.type)) ++ ")" := by
  cases hd : (r.method m).declaring <;> simp only [methodName, hd, Option.elim]

namespace PlainNames

variable (hn : r.PlainNames)
include hn

theorem unbracketed_moduleName {m : ModuleId} (hm : m.index < r.modules.size) :
    Unbracketed (r.moduleName m).toList :=
  hn.modules (r.module m) (module_mem_of_lt hm)

theorem grouped_withModuleName {d : TypeDecl} (hd : d.module.index < r.modules.size) {s : String}
    {p : Prop} (hs : Grouped s p) : Grouped (r.withModuleName d s) p := by
  unfold Registry.withModuleName
  split
  · refine Grouped.plain_append ?_ hs
    rw [String.toList_ofList]
    exact fun c hc => hn.unbracketed_moduleName hd c (List.mem_of_mem_filter hc)
  · exact hs

/-- the square brackets in the name of a type, which comes after the types that it is made from -/
theorem grouped_fullName (ho : r.Orderly) (ht : r.Has (.type t)) :
    Grouped (r.fullName t) (r.Deep t) := by
  induction hi : t.index using Nat.strongRecOn generalizing t with
  | _ n ih =>
    subst hi
    have hpart : ∀ u, Item.type u ∈ (r.type t).form.items → Grouped (r.fullName u) (r.Deep u) :=
      fun u hu => ih u.index ((ho.placed t ht).part_lt u hu) (ho.wellFormed.formOf ht hu) rfl
    have hrendered := (ho.placed t ht).rendered
    have hplain := hn.types (r.type t) (type_mem ht)
    cases hf : (r.type t).form with
    | defined kind params =>
      have hform : ((r.type t).form.isDefinition || (r.type t).form.isParameter) = true := by
        rw [hf]
        rfl
      exact (Grouped.of_unbracketed (hplain hform)).congr (iff_of_false id (not_deep hform))
    | parameter index owner =>
      have hform : ((r.type t).form.isDefinition || (r.type t).form.isParameter) = true := by
        rw [hf]
        rfl
      exact (Grouped.of_unbracketed (hplain hform)).congr (iff_of_false id (not_deep hform))
    | constructed shape element =>
      rw [hrendered (by rw [hf]; rfl), Registry.render, hf, deep_constructed_iff hf]
      exact grouped_render shape (hpart element (by rw [hf]; exact List.mem_singleton.mpr rfl))
    | instantiated kind definition args =>
      have hdefinition : Unbracketed (r.fullName definition).toList := by
        have hd := (ho.placed t ht).definition definition (by rw [hf]; rfl)
        have hhas := ho.wellFormed.definition ht (d := definition) (by rw [hf]; rfl)
        exact hn.types (r.type definition) (type_mem hhas) (by rw [hd.isDefinition]; rfl)
      have hargs : ∀ a ∈ args, Grouped (r.fullName a) (r.Deep a) := fun a ha =>
        hpart a (by rw [hf]; exact List.mem_map_of_mem (List.mem_cons_of_mem _ ha))
      rw [hrendered (by rw [hf]; rfl), Registry.render, hf, deep_instantiated_iff hf]
      refine hn.grouped_withModuleName (ho.placed t ht).home (Grouped.append_plain ?_ (by decide))
      rw [String.append_assoc]
      refine Grouped.plain_append hdefinition (Grouped.plain_append (by decide) ?_)
      exact Grouped.intercalate (by decide) hargs

/-- the square brackets in the names of some types -/
theorem grouped_nameList (ho : r.Orderly) {ts : List TypeId} (hts : ∀ t ∈ ts, r.Has (.type t)) :
    Grouped (r.nameList ts) (∃ t ∈ ts, r.Deep t) :=
  Grouped.intercalate (by decide) fun t ht => hn.grouped_fullName ho (hts t ht)

theorem grouped_ownerName (ho : r.Orderly) (hm : r.Has (.method m)) :
    Grouped ((r.method m).declaring.elim "dynamic_method" r.fullName)
      (∃ t ∈ (r.method m).declaring.toList, r.Deep t) := by
  cases hd : (r.method m).declaring with
  | none => exact (Grouped.of_unbracketed (s := "dynamic_method") (by decide)).congr (by simp)
  | some t => exact (hn.grouped_fullName ho (ho.wellFormed.declaring hm hd)).congr (by simp)

theorem grouped_shownArgs (ho : r.Orderly) (hm : r.Has (.method m)) :
    Grouped (if (r.method m).isGenericInstance && !(r.method m).genericArgs.isEmpty then
        "<" ++ r.nameList (r.method m).genericArgs ++ ">" else "")
      (∃ t ∈ if (r.method m).isGenericInstance then (r.method m).genericArgs else [],
        r.Deep t) := by
  split
  · rename_i hshown
    rw [if_pos (Bool.and_eq_true_iff.mp hshown).1]
    have hlist := hn.grouped_nameList ho fun t ht => ho.wellFormed.genericArg hm ht
    exact Grouped.append_plain (Grouped.plain_append (by decide) hlist) (by decide)
  · rename_i hshown
    refine (Grouped.of_unbracketed (by decide)).congr (iff_of_false id ?_)
    rintro ⟨t, ht, -⟩
    -- an instance without arguments shows none
    split at ht
    · rename_i hinst
      cases hg : (r.method m).genericArgs with
      | nil => simp [hg] at ht
      | cons a as => simp [hinst, hg] at hshown
    · cases ht

theorem grouped_methodName (ho : r.Orderly) (hm : r.Has (.method m)) :
    Grouped (r.methodName m) (∃ t ∈ r.methodUses m, r.Deep t) := by
  have hw := ho.wellFormed
  have hname := hn.methods (r.method m) (method_mem hm)
  have hresult : Grouped (if (r.method m).isConstructor then "System.Void" else
      r.fullName (r.method m).returnType) (∃ t ∈ r.resultUses m, r.Deep t) := by
    unfold resultUses
    split
    · exact (Grouped.of_unbracketed (by decide)).congr (by simp)
    · exact (hn.grouped_fullName ho (hw.returnType hm)).congr (by simp)
  have hparams : Grouped (r.nameList ((shownParams (r.method m).params).map (·.type)))
      (∃ t ∈ (shownParams (r.method m).params).map (·.type), r.Deep t) := by
    refine hn.grouped_nameList ho fun t ht => ?_
    obtain ⟨p, hp, rfl⟩ := List.mem_map.mp ht
    exact hw.param hm (List.mem_map_of_mem (mem_of_mem_shownParams hp))
  have howned := (hresult.append_plain (t := "  ") (by decide)).append (hn.grouped_ownerName ho hm)
  have hqualified := (howned.append_plain (t := ".") (by decide)).append_plain hname
  have hinstance := hqualified.append (hn.grouped_shownArgs ho hm)
  have hall := ((hinstance.append_plain (t := "(") (by decide)).append hparams).append_plain
    (t := ")") (by decide)
  rw [methodName_eq_elim]
  refine hall.congr ?_
  simp only [methodUses, List.mem_append, or_and_right, exists_or]

end PlainNames

/-! ## labels of methods -/

/-- **Labels of methods.**  A label has at most 200 characters.  The only ones in it that an
assembler does not accept are square brackets, and these are there only if an array of three or more
dimensions stands in the name.  If such an array does, and the label is not cut, they are there. -/
theorem isLegalLabel_finalLabel_iff (ho : r.Orderly) (hn : r.PlainNames) (hm : r.Has (.method m)) :
    (finalLabel (r.methodName m)).length ≤ maxLabelLength ∧
    (∀ c ∈ (finalLabel (r.methodName m)).toList, c ∈ illegalInIdentifier ∨ c = '|' →
      (c = '[' ∨ c = ']') ∧ ∃ t ∈ r.methodUses m, r.Deep t) ∧
    ((∀ t ∈ r.methodUses m, ¬ r.Deep t) → IsLegalLabel (finalLabel (r.methodName m))) ∧
    ((spelledOut (r.methodName m).toList).length ≤ maxLabelLength →
      (IsLegalLabel (finalLabel (r.methodName m)) ↔ ∀ t ∈ r.methodUses m, ¬ r.Deep t)) := by
  obtain ⟨ks, hks, hdeep⟩ := hn.grouped_methodName ho hm
  have hbrackets : ∀ c ∈ (finalLabel (r.methodName m)).toList, c ∈ illegalInIdentifier ∨ c = '|' →
      (c = '[' ∨ c = ']') ∧ ∃ t ∈ r.methodUses m, r.Deep t := fun c hc hillegal => by
    obtain ⟨hb, hspelled⟩ := bracket_of_illegal hc hillegal
    exact ⟨hb, hdeep.mp ((hks.spelledOut hb).mp hspelled)⟩
  have hlegal : (∀ t ∈ r.methodUses m, ¬ r.Deep t) →
      IsLegalLabel (finalLabel (r.methodName m)) := fun hnone c hc => by
    refine not_or.mp fun hillegal => ?_
    obtain ⟨-, t, ht, hd⟩ := hbrackets c hc hillegal
    exact hnone t ht hd
  refine ⟨?_, hbrackets, hlegal, fun hshort => ⟨fun hl t ht hd => ?_, hlegal⟩⟩
  · rw [finalLabel_eq, String.length_ofList]
    exact length_labelText _
  · -- the whole text is the label, and a bracket is left in it
    have hopen : '[' ∈ spelledOut (r.methodName m).toList :=
      (hks.spelledOut (.inl rfl)).mpr (hdeep.mpr ⟨t, ht, hd⟩)
    rw [finalLabel_eq, labelText_of_short hshort] at hl
    exact (hl '[' (by rwa [String.toList_ofList])).1 (by decide)

def gridEdits : List Edit :=
  [.addModule "App", .declareType { module := ⟨1⟩, namespaceName := "", name := "Grid" },
    .construct (.array 2) ⟨12⟩, .construct .szArray ⟨21⟩, .construct .pointer ⟨22⟩,
    .construct (.array 3) ⟨12⟩,
    .declareMethod { module := ⟨1⟩, name := "Plane", declaring := some ⟨20⟩,
                     params := [{ name := "cells", type := ⟨23⟩ }] },
    .declareMethod { module := ⟨1⟩, name := "Cube", declaring := some ⟨20⟩,
                     params := [{ name := "cells", type := ⟨24⟩ }] }]

/-- one evaluation of the program for all that is needed of it -/
theorem gridEdits_names : FitAll core gridEdits ∧ (core.applyAll gridEdits).PlainNames ∧
    (core.applyAll gridEdits).Has (.method ⟨0⟩) ∧ (core.applyAll gridEdits).Has (.method ⟨1⟩) ∧
    (core.applyAll gridEdits).methodName ⟨0⟩ =
      "System.Void  Grid.Plane(System.Int32[,][]*)" ∧
    (core.applyAll gridEdits).methodName ⟨1⟩ = "System.Void  Grid.Cube(System.Int32[,,])" ∧
    ⟨24⟩ ∈ (core.applyAll gridEdits).methodUses ⟨1⟩ ∧
    ((core.applyAll gridEdits).type ⟨24⟩).form.shape? = some (.array 3) := by
  decide +kernel

theorem spelledOut_grid :
    spelledOut "System.Void  Grid.Plane(System.Int32[,][]*)".toList =
      "SystemVoidGridPlaneSystemInt32arrayarraypointer".toList ∧
    spelledOut "System.Void  Grid.Cube(System.Int32[,,])".toList =
      "SystemVoidGridCubeSystemInt32[]".toList := by
  decide +kernel

/-- the array of three dimensions is deep -/
theorem deep_grid : (core.applyAll gridEdits).Deep ⟨24⟩ := by
  obtain ⟨-, -, -, -, -, -, -, hshape⟩ := gridEdits_names
  cases hf : ((core.applyAll gridEdits).type ⟨24⟩).form with
  | constructed shape e =>
    rw [hf] at hshape
    cases hshape
    exact .array hf (Nat.le_refl 3)
  | defined | instantiated | parameter =>
    rw [hf] at hshape
    cases hshape

theorem isLegalLabel_finalLabel_iff_grid :
    (∀ t ∈ (core.applyAll gridEdits).methodUses ⟨0⟩, ¬ (core.applyAll gridEdits).Deep t) ∧
      ¬ IsLegalLabel (finalLabel ((core.applyAll gridEdits).methodName ⟨1⟩)) := by
  obtain ⟨hfits, hn, hplane, hcube, hplaneName, hcubeName, huses, -⟩ := gridEdits_names
  obtain ⟨hplaneText, hcubeText⟩ := spelledOut_grid
  have ho := (Built.core.applyAll hfits).orderly
  obtain ⟨-, -, -, hiff⟩ := isLegalLabel_finalLabel_iff ho hn hplane
  obtain ⟨-, -, -, hiff'⟩ := isLegalLabel_finalLabel_iff ho hn hcube
  rw [hplaneName, finalLabel_eq, hplaneText, labelText_of_short (by decide)] at hiff
  rw [hcubeName, hcubeText] at hiff'
  rw [hcubeName]
  exact ⟨(hiff (by decide)).mp (by decide +kernel),
    fun h => (hiff' (by decide)).mp h _ huses deep_grid⟩

/-- The commas in the brackets of an array of three dimensions are dropped; the brackets stay. -/
theorem finalLabel_illegal : FitAll core gridEdits ∧ (core.applyAll gridEdits).PlainNames ∧
    finalLabel ((core.applyAll gridEdits).methodName ⟨1⟩) = "SystemVoidGridCubeSystemInt32[]" ∧
    '[' ∈ illegalInIdentifier ∧
    ¬ IsLegalLabel (finalLabel ((core.applyAll gridEdits).methodName ⟨1⟩)) := by
  obtain ⟨hfits, hn, -, -, -, hcubeName, -, -⟩ := gridEdits_names
  have hlabel : finalLabel ((core.applyAll gridEdits).methodName ⟨1⟩) =
      "SystemVoidGridCubeSystemInt32[]" := by
    rw [hcubeName, finalLabel_eq, spelledOut_grid.2, labelText_of_short (by decide)]
    exact String.ofList_toList
  have hopen : '[' ∈ illegalInIdentifier := by decide
  refine ⟨hfits, hn, hlabel, hopen, fun h => ?_⟩
  rw [hlabel] at h
  exact (h '[' (by decide)).1 hopen

end Registry

end ProgramScan
