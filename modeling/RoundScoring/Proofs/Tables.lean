import Mathlib.Data.List.Nodup
import RoundScoring.Table

/-!
What tables hold, and where it comes from: a value that is found is an entry, and an entry of a table
made of a list was in the list.
-/

namespace RoundScoring.Table

variable {κ α β : Type} [DecidableEq κ]

theorem mem_entries_of_get? {t : Table κ α} {k : κ} {v : α} (found : t.get? k = some v) :
    (k, v) ∈ t.entries := by
  obtain ⟨before, after, same, -⟩ := List.lookup_eq_some_iff.mp found
  rw [same]
  simp

theorem exists_get?_of_mem_keys {t : Table κ α} {k : κ} (inside : k ∈ t.keys) :
    ∃ v, t.get? k = some v := by
  rw [← Option.ne_none_iff_exists']
  exact fun absent => get?_eq_none_iff.mp absent inside

theorem get?_of_mem_entries {t : Table κ α} {k : κ} {v : α} (inside : (k, v) ∈ t.entries) :
    t.get? k = some v := by
  obtain ⟨w, found⟩ := exists_get?_of_mem_keys (List.mem_map_of_mem (f := Prod.fst) inside)
  have same := List.inj_on_of_nodup_map t.distinct (mem_entries_of_get? found) inside rfl
  cases same
  exact found

theorem get?_of_perm {t u : Table κ α} (same : t.entries.Perm u.entries) (k : κ) :
    t.get? k = u.get? k := by
  cases found : u.get? k with
  | some v => exact get?_of_mem_entries (same.mem_iff.mpr (mem_entries_of_get? found))
  | none =>
    rw [get?_eq_none_iff] at found ⊢
    unfold keys at found ⊢
    rwa [(same.map Prod.fst).mem_iff]

theorem mem_keys_put {t : Table κ α} {k j : κ} {v : α} :
    j ∈ (t.put k v).keys ↔ j ∈ t.keys ∨ j = k := by
  rw [keys_put]
  split
  next known =>
    constructor
    · exact .inl
    · rintro (old | rfl)
      · exact old
      · exact known
  next => rw [List.mem_append, List.mem_singleton]

theorem mem_of_mem_putEntry {k : κ} {v : α} {es : List (κ × α)} {e : κ × α}
    (inside : e ∈ putEntry k v es) : e = (k, v) ∨ e ∈ es := by
  induction es with
  | nil => exact .inl (List.mem_singleton.mp inside)
  | cons head es ih =>
    unfold putEntry at inside
    split at inside
    next =>
      rcases List.mem_cons.mp inside with new | later
      · exact .inl new
      · exact .inr (List.mem_cons_of_mem _ later)
    next =>
      rcases List.mem_cons.mp inside with rfl | later
      · exact .inr List.mem_cons_self
      · exact (ih later).imp_right (List.mem_cons_of_mem _)

theorem mem_of_mem_entries_ofList {es : List (κ × α)} {e : κ × α}
    (inside : e ∈ (ofList es).entries) : e ∈ es := by
  have general : ∀ (es : List (κ × α)) (t : Table κ α),
      e ∈ (es.foldl (fun t e => t.put e.1 e.2) t).entries → e ∈ t.entries ∨ e ∈ es := by
    intro es
    induction es with
    | nil => exact fun t inside => .inl inside
    | cons head es ih =>
      intro t inside
      rcases ih _ inside with old | later
      · rcases mem_of_mem_putEntry old with rfl | old
        · exact .inr List.mem_cons_self
        · exact .inl old
      · exact .inr (List.mem_cons_of_mem _ later)
  rcases general es empty inside with impossible | found
  · cases impossible
  · exact found

theorem mem_keys_ofList {es : List (κ × α)} {k : κ} :
    k ∈ (ofList es).keys ↔ k ∈ es.map Prod.fst := by
  have general : ∀ (es : List (κ × α)) (t : Table κ α),
      k ∈ (es.foldl (fun t e => t.put e.1 e.2) t).keys ↔ k ∈ t.keys ∨ k ∈ es.map Prod.fst := by
    intro es
    induction es with
    | nil => simp
    | cons e es ih =>
      intro t
      rw [List.foldl_cons, ih, mem_keys_put, List.map_cons, List.mem_cons, or_assoc]
  rw [ofList, general]
  exact or_iff_right List.not_mem_nil

theorem keys_ofList_congr {es : List (κ × α)} {fs : List (κ × β)}
    (same : es.map Prod.fst = fs.map Prod.fst) :
    (ofList es).keys = (ofList fs).keys := by
  have general : ∀ (es : List (κ × α)) (fs : List (κ × β)) (t : Table κ α) (u : Table κ β),
      es.map Prod.fst = fs.map Prod.fst → t.keys = u.keys →
      (es.foldl (fun t e => t.put e.1 e.2) t).keys =
        (fs.foldl (fun t e => t.put e.1 e.2) u).keys := by
    intro es
    induction es with
    | nil =>
      intro fs t u same kept
      cases fs with
      | nil => exact kept
      | cons f fs => cases same
    | cons e es ih =>
      intro fs t u same kept
      cases fs with
      | nil => cases same
      | cons f fs =>
        obtain ⟨head, tail⟩ := List.cons.inj same
        apply ih fs _ _ tail
        rw [keys_put, keys_put, kept, head]
  exact general es fs empty empty same rfl

end RoundScoring.Table
