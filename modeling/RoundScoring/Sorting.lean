/-!
Lists put in order by what is read off their elements. Elements that are alike stay as they stand.
Main statements: a list is rearranged (`perm_sortedBy`), so that none of its elements comes before a
lower one (`pairwise_sortedBy`), and a list that is in order already is left as it is
(`sortedBy_of_pairwise`).
-/

namespace RoundScoring

variable {α β : Type} [Ord β]

def insertBy (read : α → β) (x : α) : List α → List α
  | [] => [x]
  | y :: rest =>
      if (compare (read x) (read y)).isLE then x :: y :: rest else y :: insertBy read x rest

def sortedBy (read : α → β) (xs : List α) : List α := xs.foldr (insertBy read) []

@[simp] theorem sortedBy_nil (read : α → β) : sortedBy read [] = [] := rfl

@[simp] theorem sortedBy_cons (read : α → β) (x : α) (xs : List α) :
    sortedBy read (x :: xs) = insertBy read x (sortedBy read xs) := rfl

theorem perm_insertBy (read : α → β) (x : α) (xs : List α) :
    (insertBy read x xs).Perm (x :: xs) := by
  induction xs with
  | nil => exact .refl _
  | cons y rest ih =>
    unfold insertBy
    split
    next => exact .refl _
    next => exact (ih.cons y).trans (.swap x y rest)

theorem perm_sortedBy (read : α → β) (xs : List α) : (sortedBy read xs).Perm xs := by
  induction xs with
  | nil => exact .refl _
  | cons x xs ih => exact (perm_insertBy read x _).trans (ih.cons x)

theorem pairwise_insertBy [Std.TransOrd β] {read : α → β} {x : α} {xs : List α}
    (ordered : xs.Pairwise fun a b => (compare (read a) (read b)).isLE) :
    (insertBy read x xs).Pairwise fun a b => (compare (read a) (read b)).isLE := by
  induction xs with
  | nil => exact List.pairwise_singleton _ _
  | cons y rest ih =>
    obtain ⟨first, later⟩ := List.pairwise_cons.mp ordered
    unfold insertBy
    split
    next before =>
      refine List.pairwise_cons.mpr ⟨fun z inside => ?_, ordered⟩
      rcases List.mem_cons.mp inside with rfl | inside
      · exact before
      · exact Std.TransCmp.isLE_trans before (first z inside)
    next after =>
      refine List.pairwise_cons.mpr ⟨fun z inside => ?_, ih later⟩
      rcases List.mem_cons.mp ((perm_insertBy read x rest).mem_iff.mp inside) with rfl | inside
      · rw [Std.OrientedCmp.lt_of_not_isLE after]
        rfl
      · exact first z inside

theorem pairwise_sortedBy [Std.TransOrd β] (read : α → β) (xs : List α) :
    (sortedBy read xs).Pairwise fun a b => (compare (read a) (read b)).isLE := by
  induction xs with
  | nil => exact .nil
  | cons x xs ih => exact pairwise_insertBy ih

theorem sortedBy_of_pairwise {read : α → β} {xs : List α}
    (ordered : xs.Pairwise fun a b => (compare (read a) (read b)).isLE) : sortedBy read xs = xs := by
  induction xs with
  | nil => rfl
  | cons x xs ih =>
    obtain ⟨first, later⟩ := List.pairwise_cons.mp ordered
    rw [sortedBy_cons, ih later]
    cases xs with
    | nil => rfl
    | cons y rest => exact if_pos (first y List.mem_cons_self)

theorem sortedBy_of_ascending {read : α → β} {xs : List α}
    (ascending : xs.Pairwise fun a b => compare (read a) (read b) = .lt) : sortedBy read xs = xs :=
  sortedBy_of_pairwise (ascending.imp fun before => by rw [before]; rfl)

end RoundScoring
