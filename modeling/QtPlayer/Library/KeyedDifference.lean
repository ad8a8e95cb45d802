import Mathlib.Data.List.Basic
import Mathlib.Data.Multiset.AddSub

/- Two lists compared item by item, where items with one key count as the same. -/
namespace KeyedDifference

variable {Item Key : Type} (key : Item → Key)

def keys (items : List Item) : Multiset Key := items.map key

@[simp] theorem keys_nil : keys key [] = 0 := rfl

@[simp] theorem keys_cons (item : Item) (items : List Item) :
    keys key (item :: items) = key item ::ₘ keys key items := rfl

@[simp] theorem keys_append (items others : List Item) :
    keys key (items ++ others) = keys key items + keys key others := by simp [keys]

theorem keys_perm {items others : List Item} (perm : items.Perm others) :
    keys key items = keys key others := Multiset.coe_eq_coe.mpr (perm.map key)

variable [DecidableEq Key]

def contains (items : List Item) (item : Item) : Bool := items.any fun x => key x = key item

def removeOne (items : List Item) (item : Item) : List Item :=
  items.eraseP fun x => key x = key item

/-- Each item takes its like out of the first list, or is kept in the second. -/
def matchItem (found : List Item × List Item) (item : Item) : List Item × List Item :=
  if contains key found.1 item then (removeOne key found.1 item, found.2)
  else (found.1, found.2 ++ [item])

def difference (existing items : List Item) : List Item × List Item :=
  items.foldl (matchItem key) (existing, [])

theorem contains_iff (items : List Item) (item : Item) :
    contains key items item = true ↔ key item ∈ keys key items := by
  simp only [contains, List.any_eq_true, decide_eq_true_eq, keys, Multiset.mem_coe, List.mem_map]

theorem keys_removeOne (items : List Item) (item : Item) :
    keys key (removeOne key items item) = (keys key items).erase (key item) := by
  induction items with
  | nil => rfl
  | cons first rest ih =>
    rw [removeOne, List.eraseP_cons, keys_cons]
    by_cases same : key first = key item
    · rw [same, Multiset.erase_cons_head]
      simp
    · rw [Multiset.erase_cons_tail _ same, ← ih]
      simp [same, removeOne]

theorem matchItem_count (found : List Item × List Item) (item : Item) (k : Key) :
    (keys key (matchItem key found item).1).count k =
        (keys key found.1).count k - ({key item} : Multiset Key).count k ∧
      (keys key (matchItem key found item).2).count k = (keys key found.2).count k +
        (({key item} : Multiset Key).count k - (keys key found.1).count k) := by
  rw [Multiset.count_singleton]
  by_cases there : contains key found.1 item = true
  · have some := Multiset.count_pos.mpr ((contains_iff key _ _).mp there)
    rw [matchItem, if_pos there, keys_removeOne]
    dsimp only
    by_cases same : k = key item
    · subst same
      rw [Multiset.count_erase_self, if_pos rfl]
      omega
    · rw [Multiset.count_erase_of_ne same, if_neg same]
      omega
  · have none := Multiset.count_eq_zero.mpr fun mem => there ((contains_iff key _ _).mpr mem)
    rw [matchItem, if_neg there, keys_append, keys_cons, keys_nil, Multiset.count_add,
      Multiset.cons_zero, Multiset.count_singleton]
    dsimp only
    split
    · rename_i same
      subst same
      omega
    · omega

theorem foldl_matchItem_count (items : List Item) (found : List Item × List Item) (k : Key) :
    (keys key (items.foldl (matchItem key) found).1).count k =
        (keys key found.1).count k - (keys key items).count k ∧
      (keys key (items.foldl (matchItem key) found).2).count k = (keys key found.2).count k +
        ((keys key items).count k - (keys key found.1).count k) := by
  induction items generalizing found with
  | nil => simp
  | cons item items ih =>
    obtain ⟨left, added⟩ := matchItem_count key found item k
    obtain ⟨left', added'⟩ := ih (matchItem key found item)
    rw [List.foldl_cons, left', added', left, added, keys_cons, Multiset.count_cons,
      Multiset.count_singleton]
    omega

theorem difference_keys (existing items : List Item) :
    keys key (difference key existing items).1 = keys key existing - keys key items ∧
      keys key (difference key existing items).2 = keys key items - keys key existing := by
  have count := foldl_matchItem_count key items (existing, [])
  constructor
  · ext k
    rw [Multiset.count_sub]
    exact (count k).1
  · ext k
    rw [Multiset.count_sub]
    exact (count k).2.trans (by simp)

theorem foldl_matchItem_sublists (items : List Item) (found : List Item × List Item) :
    (items.foldl (matchItem key) found).1.Sublist found.1 ∧
      ∃ added, (items.foldl (matchItem key) found).2 = found.2 ++ added ∧
        added.Sublist items := by
  induction items generalizing found with
  | nil => exact ⟨List.Sublist.refl _, [], by simp, List.Sublist.refl _⟩
  | cons item items ih =>
    obtain ⟨left, added, extended, among⟩ := ih (matchItem key found item)
    rw [List.foldl_cons]
    by_cases there : contains key found.1 item = true
    · rw [matchItem, if_pos there] at left extended ⊢
      exact ⟨left.trans List.eraseP_sublist, added, extended, among.cons item⟩
    · rw [matchItem, if_neg there] at left extended ⊢
      refine ⟨left, item :: added, ?_, among.cons_cons item⟩
      rw [extended, List.append_assoc, List.singleton_append]

theorem difference_sublists (existing items : List Item) :
    (difference key existing items).1.Sublist existing ∧
      (difference key existing items).2.Sublist items := by
  obtain ⟨left, added, extended, among⟩ := foldl_matchItem_sublists key items (existing, [])
  refine ⟨left, ?_⟩
  rw [difference, extended, List.nil_append]
  exact among

theorem difference_empty_iff (existing items : List Item) :
    difference key existing items = ([], []) ↔ keys key existing = keys key items := by
  obtain ⟨left, added⟩ := difference_keys key existing items
  have empty (xs : List Item) : xs = [] ↔ keys key xs = 0 := by simp [keys]
  rw [Prod.ext_iff, empty, empty, left, added]
  constructor
  · rintro ⟨none, fresh⟩
    ext k
    have noneLeft := congrArg (Multiset.count k) none
    have noneNew := congrArg (Multiset.count k) fresh
    rw [Multiset.count_sub, Multiset.count_zero] at noneLeft noneNew
    omega
  · intro same
    have none : keys key items - keys key items = 0 := by
      ext k
      rw [Multiset.count_sub, Nat.sub_self, Multiset.count_zero]
    rw [same]
    exact ⟨none, none⟩

/-- Whoever takes out what is left over and puts in what is new has the new keys. -/
theorem difference_applied (existing items : List Item) :
    keys key existing - keys key (difference key existing items).1 +
      keys key (difference key existing items).2 = keys key items := by
  obtain ⟨left, added⟩ := difference_keys key existing items
  rw [left, added]
  ext k
  simp only [Multiset.count_add, Multiset.count_sub]
  omega

end KeyedDifference
