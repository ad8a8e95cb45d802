import Mathlib.Data.List.Pairwise
import Mathlib.Order.Lattice

/- Maps kept as the list of their entries in ascending order of the keys. -/
namespace OrderedMap

variable {Key Value : Type} [LinearOrder Key]

structure OrdMap (Key Value : Type) [LinearOrder Key] where
  entries : List (Key × Value)
  ascending : entries.Pairwise (·.1 < ·.1)

theorem ordMap_ext {m n : OrdMap Key Value} (same : m.entries = n.entries) : m = n := by
  cases m
  cases n
  cases same
  rfl

def OrdMap.empty : OrdMap Key Value := ⟨[], .nil⟩

def insertEntry (key : Key) (value : Value) : List (Key × Value) → List (Key × Value)
  | [] => [(key, value)]
  | e :: rest =>
    if key < e.1 then (key, value) :: e :: rest
    else if key = e.1 then (key, value) :: rest
    else e :: insertEntry key value rest

theorem mem_insertEntry {key : Key} {value : Value} {entries : List (Key × Value)}
    {e : Key × Value} (mem : e ∈ insertEntry key value entries) :
    e = (key, value) ∨ e ∈ entries := by
  induction entries with
  | nil => exact .inl (List.mem_singleton.mp mem)
  | cons first rest ih =>
    simp only [insertEntry] at mem
    split at mem
    · exact List.mem_cons.mp mem
    · split at mem
      · exact (List.mem_cons.mp mem).imp_right (List.mem_cons_of_mem _)
      · rcases List.mem_cons.mp mem with rfl | later
        · exact .inr (by simp)
        · exact (ih later).imp_right (List.mem_cons_of_mem _)

theorem insertEntry_ascending {entries : List (Key × Value)}
    (ascending : entries.Pairwise (·.1 < ·.1)) (key : Key) (value : Value) :
    (insertEntry key value entries).Pairwise (·.1 < ·.1) := by
  induction entries with
  | nil => simp [insertEntry]
  | cons first rest ih =>
    obtain ⟨before, sorted⟩ := List.pairwise_cons.mp ascending
    simp only [insertEntry]
    split
    · rename_i least
      refine List.pairwise_cons.mpr ⟨?_, ascending⟩
      intro e mem
      rcases List.mem_cons.mp mem with rfl | later
      · exact least
      · exact least.trans (before e later)
    · split
      · rename_i same
        refine List.pairwise_cons.mpr ⟨?_, sorted⟩
        intro e mem
        exact same.trans_lt (before e mem)
      · rename_i notBelow other
        refine List.pairwise_cons.mpr ⟨?_, ih sorted⟩
        intro e mem
        rcases mem_insertEntry mem with rfl | old
        · exact lt_of_le_of_ne (not_lt.mp notBelow) (Ne.symm other)
        · exact before e old

def OrdMap.insert (m : OrdMap Key Value) (key : Key) (value : Value) : OrdMap Key Value :=
  ⟨insertEntry key value m.entries, insertEntry_ascending m.ascending key value⟩

theorem insertEntry_append_iff {key : Key} {value : Value} {entries : List (Key × Value)}
    {y : Key × Value} : insertEntry key value entries = entries ++ [y] ↔
      y = (key, value) ∧ ∀ e ∈ entries, e.1 < key := by
  induction entries with
  | nil => simp [insertEntry, eq_comm]
  | cons first rest ih =>
    rw [insertEntry, List.cons_append, List.forall_mem_cons]
    split
    · rename_i least
      refine iff_of_false ?_ fun all => lt_asymm least all.2.1
      intro same
      rw [← (List.cons.inj same).1] at least
      exact lt_irrefl key least
    · split
      · rename_i same
        refine iff_of_false ?_ fun all => (same ▸ all.2.1).false
        intro eq
        have := congrArg List.length (List.cons.inj eq).2
        simp at this
      · rename_i notBelow other
        have above : first.1 < key := lt_of_le_of_ne (not_lt.mp notBelow) (Ne.symm other)
        rw [List.cons.injEq, and_iff_right rfl, ih, and_iff_right above]

end OrderedMap
