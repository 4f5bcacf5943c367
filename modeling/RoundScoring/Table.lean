/-!
Tables: one value for each of some keys, in the order in which the keys first came. A later value for
a key takes the place of the earlier one, and a key that is erased and comes again stands last.

Each operation is given by what it does to `get?` and to `keys`.
-/

namespace RoundScoring

structure Table (κ α : Type) where
  entries : List (κ × α)
  distinct : (entries.map Prod.fst).Nodup

namespace Table

variable {κ α : Type}

def empty : Table κ α := ⟨[], by simp⟩

def keys (t : Table κ α) : List κ := t.entries.map Prod.fst

def size (t : Table κ α) : Nat := t.entries.length

theorem ext {t u : Table κ α} (same : t.entries = u.entries) : t = u := by
  cases t
  cases u
  simp_all

@[simp] theorem entries_empty : (empty : Table κ α).entries = [] := rfl

def sorted (t : Table κ α) (order : κ → κ → Ordering) : List (κ × α) :=
  t.entries.mergeSort fun left right => (order left.1 right.1).isLE

variable [DecidableEq κ]

def putEntry (k : κ) (v : α) : List (κ × α) → List (κ × α)
  | [] => [(k, v)]
  | (other, w) :: rest => if other = k then (k, v) :: rest else (other, w) :: putEntry k v rest

theorem keys_putEntry (k : κ) (v : α) (es : List (κ × α)) :
    (putEntry k v es).map Prod.fst =
      if k ∈ es.map Prod.fst then es.map Prod.fst else es.map Prod.fst ++ [k] := by
  induction es with
  | nil => simp [putEntry]
  | cons e es ih =>
    unfold putEntry
    by_cases same : e.1 = k
    · simp [same]
    · have other : ¬k = e.1 := fun equal => same equal.symm
      by_cases inside : k ∈ es.map Prod.fst <;> simp [same, other, ih, inside]

theorem nodup_putEntry {k : κ} {v : α} {es : List (κ × α)}
    (distinct : (es.map Prod.fst).Nodup) : ((putEntry k v es).map Prod.fst).Nodup := by
  rw [keys_putEntry]
  split
  next => exact distinct
  next absent =>
    refine List.nodup_append.mpr ⟨distinct, by simp, ?_⟩
    intro a inside b last
    rw [List.mem_singleton.mp last]
    exact fun same => absent (same ▸ inside)

def get? (t : Table κ α) (k : κ) : Option α := t.entries.lookup k

def put (t : Table κ α) (k : κ) (v : α) : Table κ α :=
  ⟨putEntry k v t.entries, nodup_putEntry t.distinct⟩

def erase (t : Table κ α) (k : κ) : Table κ α :=
  ⟨t.entries.filter (·.1 ≠ k),
    t.distinct.sublist (List.filter_sublist.map Prod.fst)⟩

/-- All entries in turn, so of two values for one key the later is kept. -/
def ofList (es : List (κ × α)) : Table κ α := es.foldl (fun t e => t.put e.1 e.2) empty

@[simp] theorem get?_empty (k : κ) : (empty : Table κ α).get? k = none := rfl

theorem lookup_entry (k j : κ) (v : α) (es : List (κ × α)) :
    List.lookup j ((k, v) :: es) = if j = k then some v else es.lookup j := by
  by_cases same : j = k
  · simp [same]
  · have away : (j == k) = false := by simpa using same
    simp [List.lookup_cons, away, same]

theorem lookup_putEntry (k j : κ) (v : α) (es : List (κ × α)) :
    (putEntry k v es).lookup j = if j = k then some v else es.lookup j := by
  induction es with
  | nil => simp [putEntry, lookup_entry]
  | cons e es ih =>
    obtain ⟨other, w⟩ := e
    unfold putEntry
    by_cases same : other = k
    · by_cases here : j = k <;> simp [same, here, lookup_entry]
    · by_cases here : j = k
      · subst here
        simp [same, lookup_entry, ih, Ne.symm same]
      · simp [same, lookup_entry, ih, here]

@[simp] theorem get?_put (t : Table κ α) (k j : κ) (v : α) :
    (t.put k v).get? j = if j = k then some v else t.get? j :=
  lookup_putEntry k j v t.entries

theorem keys_put (t : Table κ α) (k : κ) (v : α) :
    (t.put k v).keys = if k ∈ t.keys then t.keys else t.keys ++ [k] :=
  keys_putEntry k v t.entries

theorem get?_eq_none_iff {t : Table κ α} {k : κ} : t.get? k = none ↔ k ∉ t.keys := by
  simp only [get?, keys, List.lookup_eq_none_iff, List.mem_map, not_exists, not_and]
  constructor
  · intro away e inside same
    simpa [same] using away e inside
  · intro absent e inside
    simpa using Ne.symm (absent e inside)

theorem entries_put_of_absent {t : Table κ α} {k : κ} {v : α} (absent : k ∉ t.keys) :
    (t.put k v).entries = t.entries ++ [(k, v)] := by
  have general : ∀ es : List (κ × α), k ∉ es.map Prod.fst →
      putEntry k v es = es ++ [(k, v)] := by
    intro es
    induction es with
    | nil => simp [putEntry]
    | cons e es ih =>
      intro absent
      simp only [List.map_cons, List.mem_cons, not_or] at absent
      simp [putEntry, Ne.symm absent.1, ih absent.2]
  exact general t.entries absent

@[simp] theorem get?_erase (t : Table κ α) (k j : κ) :
    (t.erase k).get? j = if j = k then none else t.get? j := by
  have general : ∀ es : List (κ × α),
      (es.filter (·.1 ≠ k)).lookup j = if j = k then none else es.lookup j := by
    intro es
    induction es with
    | nil => simp
    | cons e es ih =>
      obtain ⟨other, w⟩ := e
      by_cases same : other = k
      · rw [List.filter_cons_of_neg (by simp [same]), ih, lookup_entry, same]
        by_cases here : j = k <;> simp [here]
      · rw [List.filter_cons_of_pos (by simp [same]), lookup_entry, lookup_entry, ih]
        by_cases here : j = k
        · simp [here, Ne.symm same]
        · simp [here]
  exact general t.entries

theorem entries_ofList {es : List (κ × α)} (distinct : (es.map Prod.fst).Nodup) :
    (ofList es).entries = es := by
  have general : ∀ (es : List (κ × α)) (t : Table κ α),
      (t.keys ++ es.map Prod.fst).Nodup →
      (es.foldl (fun t e => t.put e.1 e.2) t).entries = t.entries ++ es := by
    intro es
    induction es with
    | nil => simp
    | cons e es ih =>
      intro t distinct
      have absent : e.1 ∉ t.keys := by
        intro inside
        exact (List.nodup_append.mp distinct).2.2 e.1 inside e.1 (by simp) rfl
      have kept : (t.put e.1 e.2).keys = t.keys ++ [e.1] := by simp [keys_put, absent]
      rw [List.foldl_cons, ih _ (by simpa [kept] using distinct), entries_put_of_absent absent]
      simp
  simpa [ofList] using general es empty (by simpa [keys] using distinct)

end Table
end RoundScoring
