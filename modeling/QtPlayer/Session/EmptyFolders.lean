import Mathlib.Data.List.Infix

/- fs.cpp: smartRemoveEmptyFolderTree, which the session calls when libtorrent has deleted the
   files of a torrent. A folder is the list of names that lead to it from the given path, which
   does not end in a slash. Hidden is as on Unix; links to folders are left out. -/
namespace EmptyFolders

abbrev Path := List String

/-- A file is its folder and its name. -/
structure Tree where
  dirs : List Path
  files : List (Path × String)
  nested : ∀ d name, d ++ [name] ∈ dirs → d ∈ dirs
  inside : ∀ f ∈ files, f.1 ∈ dirs

section Removal

-- Whether the system lets an entry be removed.
variable (may : Path → Bool)

def deleteFilesList : List String := ["Thumbs.db", "desktop.ini", ".directory", ".DS_Store"]

def forceRemove (t : Tree) (dir : Path) (name : String) : Tree :=
  { t with
    files := t.files.filter fun f => f ≠ (dir, name) ∨ may (dir ++ [name]) = false
    inside := fun f mem => t.inside f (List.mem_of_mem_filter mem) }

def hidden (name : String) : Bool := name.toList.head? = some '.'

/-- QDir::entryList with QDir::Files, which leaves hidden files out. -/
def entryList (t : Tree) (dir : Path) : List String :=
  (t.files.filter fun f => f.1 = dir ∧ !hidden f.2).map (·.2)

def endsWithTilde (name : String) : Bool := name.toList.getLast? = some '~'

def isEmpty (t : Tree) (dir : Path) : Bool :=
  t.files.all (·.1 ≠ dir) && t.dirs.all fun d => d = [] ∨ d.dropLast ≠ dir

theorem isEmpty_iff (t : Tree) (dir : Path) :
    isEmpty t dir ↔ (∀ f ∈ t.files, f.1 ≠ dir) ∧ ∀ name, dir ++ [name] ∉ t.dirs := by
  simp only [isEmpty, Bool.and_eq_true, List.all_eq_true, decide_eq_true_eq]
  apply and_congr_right
  intro _
  constructor
  · intro none name mem
    rcases none _ mem with nil | other
    · simp at nil
    · exact other (by simp)
  · intro none d mem
    by_contra neither
    push Not at neither
    obtain ⟨some, same⟩ := neither
    refine none (d.getLast some) ?_
    rw [← same, List.dropLast_append_getLast some]
    exact mem

def rmdir (t : Tree) (dir : Path) : Tree :=
  if empty : isEmpty t dir = true ∧ may dir then
    { t with
      dirs := t.dirs.filter (· ≠ dir)
      nested := by
        intro d name mem
        obtain ⟨here, _⟩ := List.mem_filter.mp mem
        refine List.mem_filter.mpr ⟨t.nested d name here, ?_⟩
        simp only [ne_eq, decide_not, Bool.not_eq_eq_eq_not, Bool.not_true, decide_eq_false_iff_not]
        rintro rfl
        exact ((isEmpty_iff t d).mp empty.1).2 name here
      inside := by
        intro f mem
        refine List.mem_filter.mpr ⟨t.inside f mem, ?_⟩
        simpa using ((isEmpty_iff t dir).mp empty.1).1 f mem }
  else t

def cleanFolder (t : Tree) (p : Path) : Tree :=
  let t := deleteFilesList.foldl (fun t f => forceRemove may t p f) t
  let tmpFileList := entryList t p
  let t := (tmpFileList.filter endsWithTilde).foldl (fun t f => forceRemove may t p f) t
  rmdir may t p

/-- `dirList` is the list that std::sort leaves. -/
def smartRemoveEmptyFolderTree (t : Tree) (dirList : List Path) : Tree × Bool :=
  if [] ∉ t.dirs then (t, true)
  else
    let t := dirList.foldl (cleanFolder may) t
    (t, decide ([] ∈ t.dirs))

end Removal

/-- The path itself and the folders the iterator found, the deepest first. -/
structure Sorted (found dirList : List Path) : Prop where
  same : dirList.Perm ([] :: found)
  deepest : dirList.Pairwise fun l r => l.length ≥ r.length

def unwanted (name : String) : Bool :=
  name ∈ deleteFilesList ∨ endsWithTilde name ∧ !hidden name

section Cleaning

variable (may : Path → Bool)

variable {may}

end Cleaning

def downloads : Tree where
  dirs := [[], ["show"], ["show", "extras"], ["film"]]
  files := [(["show", "extras"], "Thumbs.db"), (["show"], "notes~"), (["film"], "film.mkv")]
  nested := by
    have parents : ∀ d ∈ [[], ["show"], ["show", "extras"], ["film"]],
        d.dropLast ∈ [[], ["show"], ["show", "extras"], ["film"]] := by decide
    intro d name mem
    simpa using parents _ mem
  inside := by decide

end EmptyFolders
