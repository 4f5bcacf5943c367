import Mathlib.Data.Finset.Dedup
import Mathlib.Data.List.Nodup
import RoundScoring.Loss.Key
import RoundScoring.OrderedSet
import RoundScoring.Sorting

/-!
Sets are gone through in any order, and put in order after. No two loss keys have the same place, so
whatever order a set of them is gone through in, it is put in one order (`LossKey.exists_order`). Lists
of keys that stand in it list what they have in common alike (`LossKey.InOrder.filter_mem_comm`).
Accounts are in the order of their parts, letter by letter and byte by byte
(`Address.compare_eq_lt_iff`).
-/

namespace RoundScoring

/-- A list that goes through the members of a set, each of them once. -/
structure Enumerates {α : Type} (member : α → Prop) (listed : List α) : Prop where
  nodup : listed.Nodup
  mem_iff : ∀ x, x ∈ listed ↔ member x

theorem Enumerates.perm {α : Type} {member : α → Prop} {xs ys : List α}
    (left : Enumerates member xs) (right : Enumerates member ys) : xs.Perm ys :=
  (List.perm_ext_iff_of_nodup left.nodup right.nodup).mpr
    fun x => (left.mem_iff x).trans (right.mem_iff x).symm

theorem Enumerates.of_perm {α : Type} {member : α → Prop} {xs ys : List α}
    (enumerates : Enumerates member xs) (perm : ys.Perm xs) : Enumerates member ys :=
  ⟨perm.nodup_iff.mpr enumerates.nodup, fun x => perm.mem_iff.trans (enumerates.mem_iff x)⟩

section Sorting

variable {α β : Type} [Ord β] [Std.TransOrd β] [Std.LawfulEqOrd β] {read : α → β} {xs ys : List α}

theorem ascending_sortedBy (distinct : (xs.map read).Nodup) :
    (sortedBy read xs).Pairwise fun a b => compare (read a) (read b) = .lt := by
  have different : (sortedBy read xs).Pairwise fun a b => read a ≠ read b :=
    List.pairwise_map.mp (((perm_sortedBy read xs).map read).nodup_iff.mpr distinct)
  refine ((pairwise_sortedBy read xs).and different).imp ?_
  rintro a b ⟨before, unlike⟩
  cases compared : compare (read a) (read b) with
  | lt => rfl
  | eq => exact absurd (Std.LawfulEqOrd.eq_of_compare compared) unlike
  | gt => simp [compared] at before

theorem sortedBy_eq_of_perm (distinct : (xs.map read).Nodup) (perm : xs.Perm ys) :
    sortedBy read xs = sortedBy read ys := by
  have inside : ∀ {x}, x ∈ sortedBy read xs → x ∈ xs := (perm_sortedBy read xs).mem_iff.mp
  have inside' : ∀ {x}, x ∈ sortedBy read ys → x ∈ xs := fun member =>
    perm.mem_iff.mpr ((perm_sortedBy read ys).mem_iff.mp member)
  refine List.Perm.eq_of_pairwise ?_ (pairwise_sortedBy read xs) (pairwise_sortedBy read ys)
    ((perm_sortedBy read xs).trans (perm.trans (perm_sortedBy read ys).symm))
  intro a b member member' before after
  refine List.inj_on_of_nodup_map distinct (inside member) (inside' member') ?_
  exact Std.LawfulEqOrd.eq_of_compare (Std.OrientedCmp.isLE_antisymm before after)

end Sorting

namespace LossKey

variable {keys keys' listed : List LossKey}

/-- Keys that stand as they are put in order, whatever the order in which they are gone through. -/
def InOrder (keys : List LossKey) : Prop :=
  ∀ listed, Enumerates (· ∈ keys) listed → sortedBy place listed = keys

theorem distinct_places (nodup : listed.Nodup) : (listed.map place).Nodup :=
  nodup.map fun _ _ => place_injective

theorem distinct_places_of_entries {α : Type} {entries : List (LossKey × α)}
    (distinct : (entries.map Prod.fst).Nodup) : (entries.map (·.1.place)).Nodup := by
  have places := distinct_places distinct
  rwa [List.map_map] at places

theorem exists_order (keys : Finset LossKey) : ∃ ordered : List LossKey,
    Enumerates (· ∈ keys) ordered ∧
    (ordered.Pairwise fun a b => compare a.place b.place = .lt) ∧
    ∀ listed, Enumerates (· ∈ keys) listed → sortedBy place listed = ordered := by
  have enumerates : Enumerates (· ∈ keys) keys.toList := ⟨keys.nodup_toList, by simp⟩
  refine ⟨sortedBy place keys.toList, enumerates.of_perm (perm_sortedBy place _),
    ascending_sortedBy (distinct_places enumerates.nodup), fun listed other => ?_⟩
  exact sortedBy_eq_of_perm (distinct_places other.nodup) (other.perm enumerates)

theorem inOrder_iff_ascending : InOrder keys ↔ Ascending keys := by
  constructor
  · intro inOrder
    have enumerates : Enumerates (· ∈ keys) keys.dedup := ⟨keys.nodup_dedup, by simp⟩
    rw [← inOrder _ enumerates]
    exact ascending_sortedBy (distinct_places enumerates.nodup)
  · intro ascending listed enumerates
    have nodup : keys.Nodup := OrderedSet.nodup_toList ⟨keys, ascending⟩
    have perm := enumerates.perm ⟨nodup, fun _ => Iff.rfl⟩
    rw [sortedBy_eq_of_perm (distinct_places enumerates.nodup) perm]
    exact sortedBy_of_ascending ascending

theorem InOrder.filter_mem_comm (inOrder : InOrder keys) (inOrder' : InOrder keys') :
    keys.filter (· ∈ keys') = keys'.filter (· ∈ keys) := by
  rw [inOrder_iff_ascending] at inOrder inOrder'
  refine eq_of_ascending (inOrder.filter _) (inOrder'.filter _) fun key => ?_
  simp [and_comm]

end LossKey

theorem compare_eq_lt_iff_lex {α : Type} [Ord α] [Std.LawfulEqOrd α] {xs ys : List α} :
    compare xs ys = .lt ↔ List.Lex (fun x y => compare x y = .lt) xs ys := by
  induction xs generalizing ys with
  | nil => cases ys <;> simp [List.compare_nil_cons]
  | cons x xs ih =>
    cases ys with
    | nil => simp [List.compare_cons_nil]
    | cons y ys =>
      rw [List.compare_cons_cons, List.cons_lex_cons_iff, Ordering.then_eq_lt, ih,
        Std.compare_eq_iff_eq]

namespace Address

/-- Accounts in order: by the human readable part, letter by letter, and where that is the same by the
payload, byte by byte. -/
def Before (v w : Address) : Prop :=
  List.Lex (fun c d => c.toNat < d.toNat) v.hrp.toList w.hrp.toList ∨
    v.hrp = w.hrp ∧ List.Lex (fun b c => b.toNat < c.toNat) v.payload w.payload

theorem compare_eq_lt_iff {v w : Address} : compare v w = .lt ↔ v.Before w := by
  have letters : compare v.hrp w.hrp = .lt ↔
      List.Lex (fun c d => c.toNat < d.toNat) v.hrp.toList w.hrp.toList :=
    compareOfLessAndEq_eq_lt.trans String.lt_iff
  have bytes : compare v.payload w.payload = .lt ↔
      List.Lex (fun b c => b.toNat < c.toNat) v.payload w.payload := by
    rw [compare_eq_lt_iff_lex]
    refine iff_of_eq (congrArg (List.Lex · v.payload w.payload) ?_)
    funext b c
    exact propext (compareOfLessAndEq_eq_lt.trans UInt8.lt_iff_toNat_lt)
  unfold Before
  rw [compare_def, Ordering.then_eq_lt, letters, bytes, Std.compare_eq_iff_eq]

theorem pairwise_sorted (listed : List Address) :
    (sorted listed).Pairwise fun a b => (compare a b).isLE := by
  refine List.pairwise_mergeSort (fun _ _ _ => Std.TransCmp.isLE_trans) (fun a b => ?_) listed
  rw [Bool.or_eq_true, or_iff_not_imp_left]
  intro after
  rw [Std.OrientedCmp.lt_of_not_isLE after]
  rfl

theorem perm_sorted (listed : List Address) : (sorted listed).Perm listed :=
  List.mergeSort_perm listed _

theorem sorted_eq_toList {roster : OrderedSet Address} {listed : List Address}
    (enumerates : Enumerates (· ∈ roster) listed) : sorted listed = roster.toList := by
  have perm := enumerates.perm ⟨roster.nodup_toList, fun _ => Iff.rfl⟩
  refine List.Perm.eq_of_pairwise (fun a b _ _ before after => ?_) (pairwise_sorted listed)
    (roster.ascending.imp fun before => ?_) ((perm_sorted listed).trans perm)
  · exact Std.LawfulEqOrd.eq_of_compare (Std.OrientedCmp.isLE_antisymm before after)
  · rw [before]
    rfl

end Address

namespace LossKey

theorem compare_category_self (category : Category) (worker worker' : Option Address) :
    compare (mk category worker).category (mk category worker').category = .eq :=
  Std.ReflCmp.compare_self

theorem compare_place_none (category : Category) (worker : Address) :
    compare (mk category none).place (mk category (some worker)).place = .lt := by
  rw [← compare_eq_place, compare_def, compare_category_self]
  rfl

theorem compare_place_some (category : Category) (v w : Address) :
    compare (mk category (some v)).place (mk category (some w)).place = compare v w := by
  rw [← compare_eq_place, compare_def, compare_category_self]
  rfl

theorem sortedBy_place_map_some (category : Category) (workers : List Address) :
    sortedBy place (workers.map (mk category ∘ some)) =
      (Address.sorted workers).map (mk category ∘ some) := by
  refine List.Perm.eq_of_pairwise (fun a b _ _ before after => ?_) (pairwise_sortedBy place _) ?_
    ((perm_sortedBy place _).trans ((Address.perm_sorted workers).map _).symm)
  · exact place_injective (Std.LawfulEqOrd.eq_of_compare (Std.OrientedCmp.isLE_antisymm before after))
  · refine List.pairwise_map.mpr ((Address.pairwise_sorted workers).imp fun before => ?_)
    rw [Function.comp_apply, Function.comp_apply, compare_place_some]
    exact before

end LossKey

end RoundScoring
