/-!
# Finite tables

A `Table κ ν` maps finitely many keys to values.  Looking a key up right after an insertion gives
the inserted value, and other keys are not touched:

* `get?_insert_self`, `get?_insert_of_ne`   the two laws of `insert`.
-/

namespace ProgramScan

/-- A finite map, as a list of its pairs. -/
structure Table (κ ν : Type) where
  entries : List (κ × ν)

namespace Table

variable {κ ν : Type} [DecidableEq κ]

instance : Inhabited (Table κ ν) := ⟨⟨[]⟩⟩

instance : EmptyCollection (Table κ ν) := ⟨⟨[]⟩⟩

def find? (key : κ) : List (κ × ν) → Option ν
  | [] => none
  | (k, v) :: rest => if k = key then some v else find? key rest

def get? (t : Table κ ν) (key : κ) : Option ν := find? key t.entries

def contains (t : Table κ ν) (key : κ) : Bool := (t.get? key).isSome

/-- stores `value` under `key`, in place of what stood there -/
def insert (t : Table κ ν) (key : κ) (value : ν) : Table κ ν :=
  ⟨(key, value) :: t.entries.filter fun e => e.1 ≠ key⟩

/-- stores `value` under `key` unless something is stored there already -/
def insertNew (t : Table κ ν) (key : κ) (value : ν) : Table κ ν :=
  if t.contains key then t else t.insert key value

def keys (t : Table κ ν) : List κ := t.entries.map (·.1)

def size (t : Table κ ν) : Nat := t.entries.length


@[simp] theorem find?_nil (key : κ) : find? key ([] : List (κ × ν)) = none := rfl

theorem find?_cons (key k : κ) (v : ν) (rest : List (κ × ν)) :
    find? key ((k, v) :: rest) = if k = key then some v else find? key rest := rfl

theorem find?_filter_ne {key other : κ} (h : key ≠ other) (es : List (κ × ν)) :
    find? key (es.filter fun e => e.1 ≠ other) = find? key es := by
  induction es with
  | nil => rfl
  | cons e rest ih =>
    obtain ⟨k, v⟩ := e
    by_cases hk : k = other
    · subst hk
      rw [List.filter_cons_of_neg (by simp), ih, find?_cons, if_neg (Ne.symm h)]
    · rw [List.filter_cons_of_pos (by simpa using hk), find?_cons, find?_cons, ih]

@[simp] theorem get?_empty (key : κ) : (∅ : Table κ ν).get? key = none := rfl

@[simp] theorem get?_insert_self (t : Table κ ν) (key : κ) (value : ν) :
    (t.insert key value).get? key = some value := by
  simp [get?, insert, find?_cons]

theorem get?_insert_of_ne (t : Table κ ν) {key other : κ} (value : ν) (h : key ≠ other) :
    (t.insert other value).get? key = t.get? key := by
  simp only [get?, insert, find?_cons, if_neg (Ne.symm h)]
  exact find?_filter_ne h t.entries

theorem get?_insertNew_of_some (t : Table κ ν) {key other : κ} {v : ν} (value : ν)
    (h : t.get? key = some v) : (t.insertNew other value).get? key = some v := by
  unfold insertNew
  split
  · exact h
  · rename_i hc
    have hne : key ≠ other := by
      rintro rfl
      exact hc (by simp [contains, h])
    rw [get?_insert_of_ne t value hne, h]

theorem mem_entries_of_get? {t : Table κ ν} {key : κ} {v : ν} (h : t.get? key = some v) :
    (key, v) ∈ t.entries := by
  obtain ⟨es⟩ := t
  simp only [get?] at h
  induction es with
  | nil => simp at h
  | cons e rest ih =>
    obtain ⟨k, w⟩ := e
    rw [find?_cons] at h
    split at h
    · rename_i hk
      cases h
      subst hk
      exact List.mem_cons_self
    · exact List.mem_cons_of_mem _ (ih h)

end Table

end ProgramScan
