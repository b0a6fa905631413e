import ProgramScan.Proofs.Registry.Records

/-!
# Methods belong to the types that list them

A type lists the methods that it declares.  Instances of generic methods are found by their arguments
alone, and no type lists them.

* `Registry.Belonging`   types list their own methods only, and no method from a given place on is an
                         instance;
* `kept_belonging`       edits keep this, except the one that makes an instance of a method.
-/

namespace ProgramScan

namespace Registry

variable {r r' : Registry} {n : Nat}

/-- Types list their own methods only, and no instances of methods.  From the place `n` on, no method is
an instance. -/
structure Belonging (n : Nat) (r : Registry) : Prop where
  owned : r.Owned
  declared : ∀ m : MethodId, n ≤ m.index → (r.method m).genericDefinition? = none

theorem Owned.quiet (h : r.Owned) (hq : Quiet r r') : r'.Owned := by
  intro t m hmem
  rw [hq.listed] at hmem
  rw [hq.method]
  exact h t m hmem

theorem Owned.push_method (h : r.Owned) (d : Method) :
    Owned { r with methods := r.methods.push d } := by
  intro t m hmem
  have hown := h t m hmem
  rw [method_push_of_has r d (has_of_declaring hown.1)]
  exact hown

theorem Owned.list (h : r.Owned) {t : TypeId} {m : MethodId}
    (hd : (r.method m).declaring = some t) (hg : (r.method m).genericDefinition? = none) :
    (r.listIn t m).Owned := by
  intro u c hmem
  show (r.method c).declaring = some u ∧ (r.method c).genericDefinition? = none
  rcases type_modifyType r t (fun d => { d with methods := d.methods ++ [m] }) u with hu | ⟨rfl, hu⟩
  · rw [listIn, hu] at hmem
    exact h u c hmem
  · rw [listIn, hu] at hmem
    rcases List.mem_append.mp hmem with hc | hc
    · exact h u c hc
    · rw [List.mem_singleton.mp hc]
      exact ⟨hd, hg⟩

theorem Owned.body (h : r.Owned) (m : MethodId) (body : Body) :
    (r.modifyMethod m fun d => { d with body := some body }).Owned := by
  intro t c hc
  have hsame := signature_modifyMethod r m body c
  have hdeclaring := congrArg Method.declaring hsame
  have hgeneric := congrArg Method.genericDefinition? hsame
  exact ⟨hdeclaring.trans (h t c hc).1, hgeneric.trans (h t c hc).2⟩

theorem Belonging.quiet (h : Belonging n r) (hq : Quiet r r') : Belonging n r' :=
  ⟨h.owned.quiet hq, fun m hle => by rw [hq.method, h.declared m hle]⟩

theorem Belonging.push_method (h : Belonging n r) {d : Method}
    (hd : d.genericDefinition? = none) : Belonging n { r with methods := r.methods.push d } := by
  refine ⟨h.owned.push_method d, fun m hle => ?_⟩
  rw [method_push]
  split
  · exact hd
  · exact h.declared m hle

theorem genericDefinition?_of_declared {d : Method} (h : d.origin = .declared) :
    d.genericDefinition? = none := by
  rw [Method.genericDefinition?, h]

/-- what happens to methods keeps them with their types -/
theorem kept_belonging (n : Nat) : Kept (Belonging n) where
  owned h := h.owned
  quiet h hq := h.quiet hq
  declare h hd := h.push_method (genericDefinition?_of_declared hd)
  list h hd ho := ⟨h.owned.list hd (genericDefinition?_of_declared ho), h.declared⟩
  copy {r inst m returnType params} h _ _ := by
    have hnew := method_push r (memberRecord (r.method m) m inst returnType params)
      ⟨r.methods.size⟩
    rw [if_pos rfl] at hnew
    have hpush := h.push_method (d := memberRecord (r.method m) m inst returnType params) rfl
    exact ⟨hpush.owned.list (by rw [hnew]; rfl) (by rw [hnew]; rfl), hpush.declared⟩
  body h := ⟨h.owned.body _ _, fun c hle =>
    (congrArg Method.genericDefinition? (signature_modifyMethod _ _ _ c)).trans
      (h.declared c hle)⟩

end Registry

end ProgramScan
