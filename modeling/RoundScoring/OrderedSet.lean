/-!
Finite sets kept as their one strictly ascending list, so that a set has one representation however
it was collected. Main statements: membership in an insertion and in a list's set, and equality of
sets with the same members.
-/

namespace RoundScoring

def insertAscending {α : Type} [Ord α] (x : α) : List α → List α
  | [] => [x]
  | y :: rest =>
      match compare x y with
      | .lt => x :: y :: rest
      | .eq => y :: rest
      | .gt => y :: insertAscending x rest

abbrev Ascending {α : Type} [Ord α] (xs : List α) : Prop :=
  xs.Pairwise fun x y => compare x y = .lt

structure OrderedSet (α : Type) [Ord α] where
  toList : List α
  ascending : Ascending toList

variable {α : Type} [Ord α]

theorem mem_insertAscending [Std.LawfulEqOrd α] {x z : α} {xs : List α} :
    z ∈ insertAscending x xs ↔ z = x ∨ z ∈ xs := by
  induction xs with
  | nil => simp [insertAscending]
  | cons y rest ih =>
    unfold insertAscending
    split
    next => simp
    next same =>
      have : x = y := Std.LawfulEqOrd.eq_of_compare same
      simp [this]
    next => simp [ih, or_left_comm]

section Lawful

variable [Std.TransOrd α] [Std.LawfulEqOrd α]

theorem ascending_insertAscending {x : α} {xs : List α} (sorted : Ascending xs) :
    Ascending (insertAscending x xs) := by
  induction xs with
  | nil => simp [insertAscending]
  | cons y rest ih =>
    obtain ⟨first, later⟩ := List.pairwise_cons.mp sorted
    unfold insertAscending
    split
    next before =>
      refine List.pairwise_cons.mpr ⟨fun z inside => ?_, sorted⟩
      rcases List.mem_cons.mp inside with rfl | inside
      · exact before
      · exact Std.TransCmp.lt_trans before (first z inside)
    next => exact sorted
    next after =>
      refine List.pairwise_cons.mpr ⟨fun z inside => ?_, ih later⟩
      rcases mem_insertAscending.mp inside with rfl | inside
      · exact Std.OrientedCmp.lt_of_gt after
      · exact first z inside

theorem eq_of_ascending {xs ys : List α} (left : Ascending xs) (right : Ascending ys)
    (same : ∀ z, z ∈ xs ↔ z ∈ ys) : xs = ys := by
  induction xs generalizing ys with
  | nil =>
    cases ys with
    | nil => rfl
    | cons y rest => simpa using same y
  | cons x xs ih =>
    cases ys with
    | nil => simpa using same x
    | cons y ys =>
      obtain ⟨leftFirst, leftLater⟩ := List.pairwise_cons.mp left
      obtain ⟨rightFirst, rightLater⟩ := List.pairwise_cons.mp right
      have irreflexive : ∀ z : α, compare z z ≠ .lt := by simp
      have asymmetric : ∀ u v : α, compare u v = .lt → compare v u ≠ .lt := by
        intro u v before after
        exact irreflexive u (Std.TransCmp.lt_trans before after)
      have heads : x = y := by
        rcases List.mem_cons.mp ((same x).mp (by simp)) with equal | inside
        · exact equal
        rcases List.mem_cons.mp ((same y).mpr (by simp)) with equal | inside'
        · exact equal.symm
        exact absurd (leftFirst y inside') (asymmetric _ _ (rightFirst x inside))
      subst heads
      congr 1
      refine ih leftLater rightLater fun z => ?_
      have outsideLeft : x ∉ xs := fun inside => irreflexive x (leftFirst x inside)
      have outsideRight : x ∉ ys := fun inside => irreflexive x (rightFirst x inside)
      by_cases head : z = x
      · subst head; simp [outsideLeft, outsideRight]
      · simpa [head] using same z

end Lawful

namespace OrderedSet

instance : Membership α (OrderedSet α) where
  mem s x := x ∈ s.toList

instance [DecidableEq α] (x : α) (s : OrderedSet α) : Decidable (x ∈ s) :=
  inferInstanceAs (Decidable (x ∈ s.toList))

def empty : OrderedSet α := ⟨[], by simp⟩

def size (s : OrderedSet α) : Nat := s.toList.length

def isEmpty (s : OrderedSet α) : Bool := s.toList.isEmpty

theorem mem_def {x : α} {s : OrderedSet α} : x ∈ s ↔ x ∈ s.toList := Iff.rfl

@[simp] theorem toList_empty : (empty : OrderedSet α).toList = [] := rfl

@[simp] theorem not_mem_empty (x : α) : x ∉ (empty : OrderedSet α) := by simp [mem_def]

theorem ext_toList {s t : OrderedSet α} (same : s.toList = t.toList) : s = t := by
  cases s
  cases t
  simp_all

variable [Std.LawfulEqOrd α]

theorem nodup_toList (s : OrderedSet α) : s.toList.Nodup :=
  s.ascending.imp fun before same => by simp [same] at before

variable [Std.TransOrd α]

def insert (s : OrderedSet α) (x : α) : OrderedSet α :=
  ⟨insertAscending x s.toList, ascending_insertAscending s.ascending⟩

def ofList (xs : List α) : OrderedSet α := xs.foldl insert empty

@[simp] theorem mem_insert {x z : α} {s : OrderedSet α} : z ∈ s.insert x ↔ z = x ∨ z ∈ s :=
  mem_insertAscending

theorem mem_foldl_insert {z : α} (xs : List α) (s : OrderedSet α) :
    z ∈ xs.foldl insert s ↔ z ∈ s ∨ z ∈ xs := by
  induction xs generalizing s with
  | nil => simp
  | cons x xs ih => simp [ih, or_assoc, or_left_comm]

@[simp] theorem mem_ofList {z : α} {xs : List α} : z ∈ ofList xs ↔ z ∈ xs := by
  simp [ofList, mem_foldl_insert]

theorem ext {s t : OrderedSet α} (same : ∀ z, z ∈ s ↔ z ∈ t) : s = t :=
  ext_toList (eq_of_ascending s.ascending t.ascending same)

end OrderedSet
end RoundScoring
