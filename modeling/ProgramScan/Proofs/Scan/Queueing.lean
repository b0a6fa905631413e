import Mathlib.Data.List.Nodup
import ProgramScan.Scan.Queue

/-!
# What the queue remembers

The queue is asked to add elements and to give the next one, in any order.  Its entries are the
first request for every identity, in the order of the requests, and each is given out once, in that
order (`serveAll_served`):

* `QueueRequest`, `QueueAnswer`   what the queue is asked and what it says;
* `asked`, `accepted`, `popped`   what a history of requests and answers tells;
* `Served`                        how a queue agrees with its history, with one step (`Tracks.serve`)
                                  and a run (`Tracks.serveAll`);
* `QueueTables`                   the queue with its positions, its elements, its waiting entries and
                                  its counters kept apart; it answers alike (`Holds.run`).

Identities are those under which the requests were made: the program may grow between two requests.
-/

namespace ProgramScan

namespace Registry

/-- only methods have identities of methods, in any two states of a program -/
theorem exists_method_of_itemKey {r r' : Registry} {x : Item} {p : MethodId}
    (h : r.itemKey x = r'.methodKey p) : ∃ y, x = .method y := by
  have hhead := congrArg (fun s => s.toList.head?) h
  cases x with
  | method y => exact ⟨y, rfl⟩
  | type t => simp [itemKey, typeKey, methodKey] at hhead
  | field f => simp [itemKey, fieldKey, methodKey] at hhead

end Registry

inductive QueueRequest
  | push (r : Registry) (item : Item) (reason : Reason) (source : Option String)
  | pop

inductive QueueAnswer
  | pushed (new : Bool)
  | popped (entry : Option QueueEntry)

def QueueRequest.wanted? : QueueRequest → Option QueueEntry
  | .push r item reason source => some ⟨r.itemKey item, item, reason, source⟩
  | .pop => none

abbrev QueueHistory := List (QueueRequest × QueueAnswer)

namespace QueueHistory

/-- the entry of an exchange that added one -/
def acceptedBy : QueueRequest × QueueAnswer → Option QueueEntry
  | (request, .pushed true) => request.wanted?
  | _ => none

/-- the entry of an exchange that took one -/
def poppedBy : QueueRequest × QueueAnswer → Option QueueEntry
  | (_, .popped entry) => entry
  | _ => none

def asked (history : QueueHistory) : List QueueEntry := history.filterMap (·.1.wanted?)

def accepted (history : QueueHistory) : List QueueEntry := history.filterMap acceptedBy

def popped (history : QueueHistory) : List QueueEntry := history.filterMap poppedBy

@[simp] theorem asked_push (history : QueueHistory) (r : Registry) (item : Item) (reason : Reason)
    (source : Option String) (answer : QueueAnswer) :
    asked (history ++ [(.push r item reason source, answer)]) =
      asked history ++ [⟨r.itemKey item, item, reason, source⟩] := by
  simp [asked, QueueRequest.wanted?]

@[simp] theorem asked_pop (history : QueueHistory) (answer : QueueAnswer) :
    asked (history ++ [(.pop, answer)]) = asked history := by
  simp [asked, QueueRequest.wanted?]

theorem accepted_append (history history' : QueueHistory) :
    accepted (history ++ history') = accepted history ++ accepted history' :=
  List.filterMap_append

theorem popped_append (history history' : QueueHistory) :
    popped (history ++ history') = popped history ++ popped history' :=
  List.filterMap_append

end QueueHistory

open QueueHistory

namespace WorkQueue

/-- the entries that were not looked into yet -/
def waiting (q : WorkQueue) : List QueueEntry := q.entries.drop q.taken

/-- answers a request; the element is new if the queue grows -/
def serve (q : WorkQueue) : QueueRequest → QueueAnswer × WorkQueue
  | .push r item reason source =>
    let q' := q.push r item reason source
    (.pushed (q'.size != q.size), q')
  | .pop =>
    match q.pop with
    | none => (.popped none, q)
    | some (entry, q') => (.popped (some entry), q')

def serveAll (q : WorkQueue) : List QueueRequest → QueueHistory × WorkQueue
  | [] => ([], q)
  | request :: rest =>
    let (answer, q₁) := q.serve request
    let (history, q₂) := q₁.serveAll rest
    ((request, answer) :: history, q₂)

/-- a new element goes to the end -/
theorem push_of_not_hasKey {q : WorkQueue} {r : Registry} {item : Item} {reason : Reason}
    {source : Option String} (h : q.hasKey (r.itemKey item) = false) :
    q.push r item reason source =
      { q with entries := q.entries ++ [⟨r.itemKey item, item, reason, source⟩] } := by
  simp [push, h]

/-- an element that is there is counted -/
theorem push_of_hasKey {q : WorkQueue} {r : Registry} {item : Item} {reason : Reason}
    {source : Option String} (h : q.hasKey (r.itemKey item) = true) :
    q.push r item reason source = { q with alreadyPresent := q.alreadyPresent + 1 } := by
  simp [push, h]

theorem serve_push_new {q : WorkQueue} {r : Registry} {item : Item} {reason : Reason}
    {source : Option String} (h : q.hasKey (r.itemKey item) = false) :
    q.serve (.push r item reason source) =
      (.pushed true,
        { q with entries := q.entries ++ [⟨r.itemKey item, item, reason, source⟩] }) := by
  simp [serve, push_of_not_hasKey h, size]

theorem serve_push_present {q : WorkQueue} {r : Registry} {item : Item} {reason : Reason}
    {source : Option String} (h : q.hasKey (r.itemKey item) = true) :
    q.serve (.push r item reason source) =
      (.pushed false, { q with alreadyPresent := q.alreadyPresent + 1 }) := by
  simp [serve, push_of_hasKey h, size]

theorem serve_pop (q : WorkQueue) :
    q.serve .pop = (.popped q.waiting.head?,
      if q.taken < q.size then { q with taken := q.taken + 1 } else q) := by
  rw [serve, pop, waiting, List.head?_drop]
  by_cases h : q.taken < q.size
  · rw [List.getElem?_eq_getElem h, if_pos h]
    rfl
  · rw [List.getElem?_eq_none (Nat.le_of_not_lt h), if_neg h]
    rfl

/-- A queue and the requests that it served, as one step of it needs them. -/
structure Tracks (history : QueueHistory) (q : WorkQueue) : Prop where
  distinct : q.keys.Nodup
  /-- the entry of a key is the first that was asked for under it -/
  first : ∀ key, q.entries.find? (·.key == key) = (asked history).find? (·.key == key)
  accepted : q.entries = accepted history
  counted : q.size + q.alreadyPresent = (asked history).length
  given : popped history = q.entries.take q.taken
  bound : q.taken ≤ q.size
  news : ∀ before r item reason source new after,
    history = before ++ (.push r item reason source, .pushed new) :: after →
      (new = true ↔ r.itemKey item ∉ (asked before).map (·.key))

theorem Tracks.empty : Tracks [] {} where
  distinct := List.nodup_nil
  first _ := rfl
  accepted := rfl
  counted := rfl
  given := rfl
  bound := Nat.le_refl 0
  news before _ _ _ _ _ _ h := by simp at h

section

variable {history : QueueHistory} {q : WorkQueue}

theorem Tracks.hasKey_iff (h : Tracks history q) (key : String) :
    q.hasKey key = true ↔ key ∈ (asked history).map (·.key) := by
  have hfirst := congrArg Option.isSome (h.first key)
  rw [List.isSome_find?, List.isSome_find?] at hfirst
  rw [hasKey, hfirst]
  simp

/-- the answers so far stay right if the last one is -/
theorem news_concat {request : QueueRequest} {answer : QueueAnswer}
    (hnews : ∀ before r item reason source new after,
      history = before ++ (.push r item reason source, .pushed new) :: after →
        (new = true ↔ r.itemKey item ∉ (asked before).map (·.key)))
    (hlast : ∀ r item reason source new, request = .push r item reason source →
      answer = .pushed new → (new = true ↔ r.itemKey item ∉ (asked history).map (·.key))) :
    ∀ before r item reason source new after,
      history ++ [(request, answer)] = before ++ (.push r item reason source, .pushed new) :: after →
        (new = true ↔ r.itemKey item ∉ (asked before).map (·.key)) := by
  intro before r item reason source new after heq
  rcases List.eq_nil_or_concat after with rfl | ⟨after, last, rfl⟩
  · obtain ⟨rfl, hx⟩ := List.append_inj' heq rfl
    cases hx
    exact hlast _ _ _ _ _ rfl rfl
  · rw [List.concat_eq_append, ← List.cons_append, ← List.append_assoc] at heq
    exact hnews _ _ _ _ _ _ _ (List.append_inj' heq rfl).1

theorem Tracks.push_new (h : Tracks history q) {r : Registry} {item : Item} {reason : Reason}
    {source : Option String} (hk : q.hasKey (r.itemKey item) = false) :
    Tracks (history ++ [(.push r item reason source, .pushed true)])
      { q with entries := q.entries ++ [⟨r.itemKey item, item, reason, source⟩] } where
  distinct := by
    have hnodup := q.keys_nodup_push r item reason source h.distinct
    rwa [push_of_not_hasKey hk] at hnodup
  first key := by
    rw [asked_push, List.find?_append, List.find?_append, h.first]
  accepted := by
    rw [accepted_append, ← h.accepted]
    rfl
  counted := by
    have hcounted := h.counted
    simp only [size, asked_push, List.length_append, List.length_singleton] at hcounted ⊢
    omega
  given := by
    rw [popped_append, h.given, List.take_append_of_le_length h.bound]
    exact List.append_nil _
  bound := by
    have hbound := h.bound
    simp only [size, List.length_append, List.length_singleton] at hbound ⊢
    omega
  news := by
    refine news_concat h.news fun r' item' _ _ new hrequest hanswer => ?_
    cases hrequest
    cases hanswer
    rw [← h.hasKey_iff]
    simp [hk]

theorem Tracks.push_present (h : Tracks history q) {r : Registry} {item : Item} {reason : Reason}
    {source : Option String} (hk : q.hasKey (r.itemKey item) = true) :
    Tracks (history ++ [(.push r item reason source, .pushed false)])
      { q with alreadyPresent := q.alreadyPresent + 1 } where
  distinct := h.distinct
  first key := by
    rw [asked_push, List.find?_append, h.first]
    by_cases hkey : r.itemKey item = key
    · -- the key was asked for before, so the new request is not the first
      have hsome : ((asked history).find? (·.key == key)).isSome = true := by
        rw [← h.first, List.isSome_find?, ← hkey]
        exact hk
      obtain ⟨e, he⟩ := Option.isSome_iff_exists.mp hsome
      rw [he]
      rfl
    · simp [hkey]
  accepted := by
    rw [accepted_append, ← h.accepted]
    exact (List.append_nil _).symm
  counted := by
    have hcounted := h.counted
    simp only [size, asked_push, List.length_append, List.length_singleton] at hcounted ⊢
    omega
  given := by
    rw [popped_append, h.given]
    exact List.append_nil _
  bound := h.bound
  news := by
    refine news_concat h.news fun r' item' _ _ new hrequest hanswer => ?_
    cases hrequest
    cases hanswer
    rw [← h.hasKey_iff]
    simp [hk]

theorem Tracks.pop (h : Tracks history q) :
    Tracks (history ++ [(.pop, .popped q.waiting.head?)])
      (if q.taken < q.size then { q with taken := q.taken + 1 } else q) := by
  have hkept : ∀ k, k ≤ q.size → popped (history ++ [(.pop, .popped q.waiting.head?)]) =
      q.entries.take k →
      Tracks (history ++ [(.pop, .popped q.waiting.head?)]) { q with taken := k } := fun k hk hgiven =>
    { distinct := h.distinct
      first := fun key => by rw [asked_pop, h.first]
      accepted := by
        rw [accepted_append, ← h.accepted]
        exact (List.append_nil _).symm
      counted := by
        rw [asked_pop, ← h.counted]
        rfl
      given := hgiven
      bound := hk
      news := news_concat h.news fun _ _ _ _ _ hrequest => nomatch hrequest }
  have hpopped : popped (history ++ [(.pop, .popped q.waiting.head?)]) =
      q.entries.take q.taken ++ q.entries[q.taken]?.toList := by
    rw [popped_append, h.given, waiting, List.head?_drop]
    cases q.entries[q.taken]? <;> rfl
  split
  · next hlt =>
    refine hkept _ hlt ?_
    rw [hpopped, List.take_add_one]
  · next hge =>
    refine hkept q.taken h.bound ?_
    rw [hpopped, List.getElem?_eq_none (Nat.le_of_not_lt hge)]
    exact List.append_nil _

theorem Tracks.serve (h : Tracks history q) (request : QueueRequest) :
    Tracks (history ++ [(request, (q.serve request).1)]) (q.serve request).2 := by
  cases request with
  | push r item reason source =>
    cases hk : q.hasKey (r.itemKey item) with
    | false =>
      rw [serve_push_new hk]
      exact h.push_new hk
    | true =>
      rw [serve_push_present hk]
      exact h.push_present hk
  | pop =>
    rw [serve_pop]
    exact h.pop

theorem Tracks.serveAll (h : Tracks history q) (requests : List QueueRequest) :
    Tracks (history ++ (q.serveAll requests).1) (q.serveAll requests).2 := by
  induction requests generalizing history q with
  | nil =>
    rw [WorkQueue.serveAll, List.append_nil]
    exact h
  | cons request rest ih =>
    have hrest := ih (h.serve request)
    rw [List.append_assoc] at hrest
    exact hrest

end

/-- A queue agrees with the requests that it served, from the first one on. -/
structure Served (history : QueueHistory) (q : WorkQueue) : Prop where
  distinct : q.keys.Nodup
  /-- an element stands where its key stands -/
  indexed : ∀ r item i, q.indexOf? r item = some i ↔ q.keys[i]? = some (r.itemKey item)
  /-- the queue holds what was new, in the order of the requests -/
  accepted : q.entries = accepted history
  /-- every request for an element added it or was counted -/
  counted : q.size + q.alreadyPresent = (asked history).length
  /-- what was given out is followed by what waits, in the order of the queue -/
  ordered : popped history ++ q.waiting = q.entries
  once : ((popped history).map (·.key)).Nodup
  /-- what was asked for is there, given out or not -/
  member : ∀ r item, q.contains r item = true ↔ r.itemKey item ∈ (asked history).map (·.key)
  /-- an element is new if its key was not asked for before -/
  news : ∀ before r item reason source new after,
    history = before ++ (.push r item reason source, .pushed new) :: after →
      (new = true ↔ r.itemKey item ∉ (asked before).map (·.key))
  /-- the method of a key is the first that was asked for under it -/
  canonical : ∀ r m, q.canonicalMethod? r m =
    (asked history).findSome? fun e => if e.key = r.methodKey m then e.item.method? else none

theorem indexOf?_eq_some_iff {q : WorkQueue} (hnodup : q.keys.Nodup) (r : Registry) (item : Item)
    (i : Nat) : q.indexOf? r item = some i ↔ q.keys[i]? = some (r.itemKey item) := by
  rw [indexOf?, List.findIdx?_eq_some_iff_getElem, keys, List.getElem?_eq_some_iff]
  constructor
  · rintro ⟨hi, hkey, -⟩
    exact ⟨by simpa using hi, by simpa using hkey⟩
  · rintro ⟨hi, hkey⟩
    rw [List.length_map] at hi
    rw [List.getElem_map] at hkey
    refine ⟨hi, by simpa using hkey, fun j hji => ?_⟩
    -- an earlier entry of the same key would be a second one
    have hlength : q.keys.length = q.entries.length := by rw [keys, List.length_map]
    have hi' : i < q.keys.length := by rwa [hlength]
    have hj' : j < q.keys.length := Nat.lt_trans hji hi'
    have hne : q.keys[j] ≠ q.keys[i] :=
      fun heq => Nat.ne_of_lt hji (hnodup.getElem_inj_iff.mp heq)
    rw [← hkey]
    simpa [keys] using hne

end WorkQueue

namespace QueueHistory

theorem exists_key_of_mem_asked {history : QueueHistory} {e : QueueEntry} (h : e ∈ asked history) :
    ∃ r : Registry, e.key = r.itemKey e.item := by
  obtain ⟨⟨request, answer⟩, -, hentry⟩ := List.mem_filterMap.mp h
  cases request with
  | push r item reason source =>
    cases hentry
    exact ⟨r, rfl⟩
  | pop => cases hentry

/-- The first entry under the identity of a method is the first method under it. -/
theorem find?_bind_method? (r : Registry) (m : MethodId) (es : List QueueEntry)
    (h : ∀ e ∈ es, ∃ r' : Registry, e.key = r'.itemKey e.item) :
    (es.find? (·.key == r.methodKey m)).bind (·.item.method?) =
      es.findSome? fun e => if e.key = r.methodKey m then e.item.method? else none := by
  induction es with
  | nil => rfl
  | cons e rest ih =>
    rw [List.findSome?_cons]
    by_cases hkey : e.key = r.methodKey m
    · obtain ⟨r', hkey'⟩ := h e List.mem_cons_self
      obtain ⟨m', hitem⟩ := Registry.exists_method_of_itemKey (hkey'.symm.trans hkey)
      rw [List.find?_cons_of_pos (by simpa using hkey), if_pos hkey, Option.bind_some, hitem]
      rfl
    · rw [List.find?_cons_of_neg (by simpa using hkey), if_neg hkey,
        ih fun e he => h e (List.mem_cons_of_mem _ he)]

end QueueHistory

namespace WorkQueue

theorem Tracks.served {history : QueueHistory} {q : WorkQueue} (h : Tracks history q) :
    Served history q where
  distinct := h.distinct
  indexed := indexOf?_eq_some_iff h.distinct
  accepted := h.accepted
  counted := h.counted
  ordered := by
    rw [h.given, waiting, List.take_append_drop]
  once := by
    rw [h.given, List.map_take]
    exact h.distinct.sublist (List.take_sublist _ _)
  member r item := h.hasKey_iff _
  news := h.news
  canonical r m := by
    rw [canonicalMethod?, h.first]
    exact find?_bind_method? r m _ fun e => exists_key_of_mem_asked

end WorkQueue

/-- The queue with everything it remembers kept apart. -/
structure QueueTables where
  index : Table String Nat := ∅
  /-- the elements in the order in which they were reached -/
  items : List Item := []
  waiting : List QueueEntry := []
  pushes : Nat := 0
  alreadyPresent : Nat := 0

namespace QueueTables

def push (t : QueueTables) (r : Registry) (item : Item) (reason : Reason)
    (source : Option String) : Bool × QueueTables :=
  let key := r.itemKey item
  if t.index.contains key then
    (false, { t with alreadyPresent := t.alreadyPresent + 1 })
  else
    (true, { t with
      index := t.index.insert key t.items.length
      items := t.items ++ [item]
      waiting := t.waiting ++ [⟨key, item, reason, source⟩]
      pushes := t.pushes + 1 })

def pop (t : QueueTables) : Option QueueEntry × QueueTables :=
  match t.waiting with
  | [] => (none, t)
  | entry :: rest => (some entry, { t with waiting := rest })

def indexOf? (t : QueueTables) (r : Registry) (item : Item) : Option Nat :=
  t.index.get? (r.itemKey item)

/-- the method that stands in the place of the identity of `m` -/
def canonicalMethod? (t : QueueTables) (r : Registry) (m : MethodId) : Option MethodId :=
  (t.index.get? (r.methodKey m)).bind fun i => t.items[i]?.bind (·.method?)

def serve (t : QueueTables) : QueueRequest → QueueAnswer × QueueTables
  | .push r item reason source =>
    let (new, t') := t.push r item reason source
    (.pushed new, t')
  | .pop =>
    let (entry, t') := t.pop
    (.popped entry, t')

def serveAll (t : QueueTables) : List QueueRequest → QueueHistory × QueueTables
  | [] => ([], t)
  | request :: rest =>
    let (answer, t₁) := t.serve request
    let (history, t₂) := t₁.serveAll rest
    ((request, answer) :: history, t₂)

structure Holds (t : QueueTables) (q : WorkQueue) : Prop where
  index : ∀ key, t.index.get? key = q.entries.findIdx? (·.key == key)
  items : t.items = q.items
  waiting : t.waiting = q.waiting
  pushes : t.pushes = q.size
  alreadyPresent : t.alreadyPresent = q.alreadyPresent

theorem Holds.empty : Holds {} {} := ⟨fun _ => rfl, rfl, rfl, rfl, rfl⟩

section

variable {t : QueueTables} {q : WorkQueue}

theorem Holds.contains (h : Holds t q) (key : String) : t.index.contains key = q.hasKey key := by
  rw [Table.contains, h.index, List.findIdx?_isSome, WorkQueue.hasKey]

theorem Holds.indexOf? (h : Holds t q) (r : Registry) (item : Item) :
    t.indexOf? r item = q.indexOf? r item :=
  h.index _

theorem Holds.canonicalMethod? (h : Holds t q) (r : Registry) (m : MethodId) :
    t.canonicalMethod? r m = q.canonicalMethod? r m := by
  rw [QueueTables.canonicalMethod?, h.index, h.items, WorkQueue.canonicalMethod?, WorkQueue.items,
    List.find?_eq_bind_findIdx?_getElem?, Option.bind_assoc]
  congr 1
  funext i
  rw [List.getElem?_map]
  cases q.entries[i]? <;> rfl

theorem Holds.push_new (h : Holds t q) (hbound : q.taken ≤ q.size) {r : Registry} {item : Item}
    {reason : Reason} {source : Option String} (hk : q.hasKey (r.itemKey item) = false) :
    Holds
      { t with
        index := t.index.insert (r.itemKey item) t.items.length
        items := t.items ++ [item]
        waiting := t.waiting ++ [⟨r.itemKey item, item, reason, source⟩]
        pushes := t.pushes + 1 }
      { q with entries := q.entries ++ [⟨r.itemKey item, item, reason, source⟩] } where
  index key := by
    rw [List.findIdx?_append]
    by_cases hkey : key = r.itemKey item
    · have hnone : q.entries.findIdx? (·.key == key) = none := by
        rw [← Option.not_isSome_iff_eq_none, List.findIdx?_isSome, hkey]
        exact Bool.eq_false_iff.mp hk
      rw [hnone, hkey, Table.get?_insert_self, h.items, WorkQueue.items, List.length_map]
      simp
    · rw [Table.get?_insert_of_ne _ _ hkey, h.index]
      simp [List.findIdx?_cons, Ne.symm hkey]
  items := by
    rw [h.items, WorkQueue.items, WorkQueue.items, List.map_append]
    rfl
  waiting := by
    rw [h.waiting, WorkQueue.waiting, WorkQueue.waiting, List.drop_append_of_le_length hbound]
  pushes := by
    rw [h.pushes, WorkQueue.size, WorkQueue.size, List.length_append]
    rfl
  alreadyPresent := h.alreadyPresent

theorem Holds.pop (h : Holds t q) :
    t.pop.1 = q.waiting.head? ∧
      Holds t.pop.2 (if q.taken < q.size then { q with taken := q.taken + 1 } else q) := by
  have hwaiting := h.waiting
  rw [QueueTables.pop]
  split
  · next hnil =>
    -- nothing waits: all entries were taken
    have hle : q.size ≤ q.taken := by
      rw [hnil, eq_comm, WorkQueue.waiting, List.drop_eq_nil_iff] at hwaiting
      exact hwaiting
    rw [if_neg (Nat.not_lt.mpr hle), ← hwaiting, hnil]
    exact ⟨rfl, h⟩
  · next entry rest hcons =>
    have hlt : q.taken < q.size := by
      by_contra hge
      rw [hcons, WorkQueue.waiting, List.drop_eq_nil_of_le (Nat.le_of_not_lt hge)] at hwaiting
      cases hwaiting
    rw [if_pos hlt, ← hwaiting, hcons]
    refine ⟨rfl, h.index, h.items, ?_, h.pushes, h.alreadyPresent⟩
    rw [WorkQueue.waiting, ← List.tail_drop, ← WorkQueue.waiting, ← hwaiting, hcons]
    rfl

/-- one request has the same answer and keeps the tables up to date -/
theorem Holds.step (h : Holds t q) (hbound : q.taken ≤ q.size) (request : QueueRequest) :
    (t.serve request).1 = (q.serve request).1 ∧ Holds (t.serve request).2 (q.serve request).2 := by
  cases request with
  | push r item reason source =>
    have hcontains := h.contains (r.itemKey item)
    cases hk : q.hasKey (r.itemKey item) with
    | false =>
      rw [WorkQueue.serve_push_new hk, serve, push, hcontains, hk]
      exact ⟨rfl, h.push_new hbound hk⟩
    | true =>
      rw [WorkQueue.serve_push_present hk, serve, push, hcontains, hk]
      exact ⟨rfl, h.index, h.items, h.waiting, h.pushes, congrArg (· + 1) h.alreadyPresent⟩
  | pop =>
    rw [WorkQueue.serve_pop, serve, ← h.pop.1]
    exact ⟨rfl, h.pop.2⟩

/-- a run of requests has the same answers and keeps the tables up to date -/
theorem Holds.run {history : QueueHistory} (h : Holds t q) (ht : q.Tracks history)
    (requests : List QueueRequest) :
    (t.serveAll requests).1 = (q.serveAll requests).1 ∧
      Holds (t.serveAll requests).2 (q.serveAll requests).2 := by
  induction requests generalizing history t q with
  | nil => exact ⟨rfl, h⟩
  | cons request rest ih =>
    obtain ⟨hanswer, hserved⟩ := h.step ht.bound request
    obtain ⟨hanswers, hrest⟩ := ih hserved (ht.serve request)
    refine ⟨?_, hrest⟩
    calc (t.serveAll (request :: rest)).1
        = (request, (t.serve request).1) :: ((t.serve request).2.serveAll rest).1 := rfl
      _ = (request, (q.serve request).1) :: ((q.serve request).2.serveAll rest).1 := by
        rw [hanswer, hanswers]

end

end QueueTables

namespace WorkQueue

/-- the history tells what was asked for -/
theorem map_fst_serveAll (q : WorkQueue) (requests : List QueueRequest) :
    (q.serveAll requests).1.map (·.1) = requests := by
  induction requests generalizing q with
  | nil => rfl
  | cons request rest ih => exact congrArg (request :: ·) (ih _)

/-- From the empty queue on, the queue agrees with every sequence of requests, and the queue that
keeps its places, elements, waiting entries and counters apart gives the same answers. -/
theorem serveAll_served (requests : List QueueRequest) :
    ∃ history q t,
      ({} : WorkQueue).serveAll requests = (history, q) ∧
      ({} : QueueTables).serveAll requests = (history, t) ∧
      history.map (·.1) = requests ∧
      q.Served history ∧
      t.Holds q ∧
      (∀ r item, t.indexOf? r item = q.indexOf? r item) ∧
      ∀ r m, t.canonicalMethod? r m = q.canonicalMethod? r m := by
  have htracks := Tracks.empty.serveAll requests
  obtain ⟨hanswers, hholds⟩ := QueueTables.Holds.empty.run Tracks.empty requests
  exact ⟨_, _, _, rfl, Prod.ext hanswers rfl, map_fst_serveAll _ _, htracks.served, hholds,
    hholds.indexOf?, hholds.canonicalMethod?⟩

end WorkQueue

end ProgramScan
