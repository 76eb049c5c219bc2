import MemoHints.Proofs.FileTree
import MemoHints.Proofs.Text.Utf8
import MemoHints.Report.Scan

/-!
# The files that a walk finds

A walk lists paths.  Here the same walk lists what the paths are made of: for each file the names
from the folder down to it, and its bytes (`Entry.walk`).  In a tree that a file system can hold,
each of these files really lies at its path, and of two of them neither lies below the other.  The
second fact is what keeps files apart when they are put into a tree by their names.
-/

namespace MemoHints

/-- Neither of two lists goes on from the other. -/
def Apart {α : Type} (a b : List α) : Prop := ¬ a <+: b ∧ ¬ b <+: a

theorem apart_of_ne {α : Type} {x y : α} (h : x ≠ y) (a b : List α) : Apart (x :: a) (y :: b) :=
  ⟨fun hab => h (List.cons_prefix_cons.mp hab).1,
    fun hba => h (List.cons_prefix_cons.mp hba).1.symm⟩

@[simp] theorem apart_cons {α : Type} {x : α} {a b : List α} :
    Apart (x :: a) (x :: b) ↔ Apart a b := by
  simp [Apart]

namespace Entry

/-- The files looked for in a folder: the names down to each, and its bytes. -/
def walk (filter : ScanFilter) : Entry → List (List Name × List UInt8)
  | .folder members => ofMembers members
  | .file _ _ | .link _ => []
where
  ofMembers : List (Name × Entry) → List (List Name × List UInt8)
    | [] => []
    | (name, .file content _) :: rest =>
      if filter.wants name then ([name], content) :: ofMembers rest else ofMembers rest
    | (name, .folder members) :: rest =>
      if filter.skips name then ofMembers rest
      else (ofMembers members).map (fun found => (name :: found.1, found.2)) ++ ofMembers rest
    | (_, .link _) :: rest => ofMembers rest
  termination_by members => sizeOf members
  decreasing_by all_goals simp +arith

variable {filter : ScanFilter}

theorem sources_ofMembers_eq (filter : ScanFilter) (dir : FilePath)
    (members : List (Name × Entry)) :
    sources.ofMembers filter dir members =
      (walk.ofMembers filter members).map fun found => dir.below found.1 := by
  fun_induction sources.ofMembers filter dir members with
  | case1 dir => simp [walk.ofMembers]
  | case2 dir name content executable rest hwants ih =>
    simp [walk.ofMembers, hwants, ih, FilePath.below]
  | case3 dir name content executable rest hwants ih => simp [walk.ofMembers, hwants, ih]
  | case4 dir name members rest hskips ih => simp [walk.ofMembers, hskips, ih]
  | case5 dir name members rest hskips ihmembers ihrest =>
    simp [walk.ofMembers, hskips, ihmembers, ihrest, FilePath.below, Function.comp_def]
  | case6 dir name target rest ih => simp [walk.ofMembers, ih]

/-- The walk lists the paths of what it finds. -/
theorem sources_eq (filter : ScanFilter) (dir : FilePath) (e : Entry) :
    e.sources filter dir = (e.walk filter).map fun found => dir.below found.1 := by
  cases e with
  | folder members => exact sources_ofMembers_eq filter dir members
  | file content executable => rfl
  | link target => rfl

/-- What is found is a member itself that is looked for, or was found in one that is not passed
over. -/
theorem mem_walk_ofMembers_iff {members : List (Name × Entry)} {found : List Name × List UInt8} :
    found ∈ walk.ofMembers filter members ↔
      ∃ m ∈ members,
        (∃ executable, m.2 = .file found.2 executable ∧ filter.wants m.1 = true ∧
          found.1 = [m.1]) ∨
        (∃ names, m.2.isFolder = true ∧ filter.skips m.1 = false ∧
          (names, found.2) ∈ m.2.walk filter ∧ found.1 = m.1 :: names) := by
  obtain ⟨names, content⟩ := found
  induction members with
  | nil => simp [walk.ofMembers]
  | cons m rest ih =>
    obtain ⟨name, e⟩ := m
    simp only [List.mem_cons, exists_eq_or_imp, ← ih]
    cases e with
    | file content' executable =>
      by_cases hwants : filter.wants name = true
      · have hfile : names = [name] ∧ content = content' ↔ content' = content ∧ names = [name] :=
          and_comm.trans (and_congr_left' eq_comm)
        simp [walk.ofMembers, hwants, isFolder, hfile]
      · simp [walk.ofMembers, hwants, isFolder]
    | folder members =>
      by_cases hskips : filter.skips name = true
      · simp [walk.ofMembers, hskips]
      · have hnames : ∀ below, name :: below = names ↔ names = name :: below := fun _ => eq_comm
        simp [walk.ofMembers, hskips, isFolder, walk, hnames]
    | link target => simp [walk.ofMembers, isFolder]

/-- Whatever is found is a member itself, or was found in a member. -/
theorem mem_walk_ofMembers {members : List (Name × Entry)} {found : List Name × List UInt8}
    (h : found ∈ walk.ofMembers filter members) :
    ∃ m ∈ members,
      (∃ executable, m.2 = .file found.2 executable ∧ found.1 = [m.1]) ∨
      (∃ names, m.2.isFolder = true ∧ (names, found.2) ∈ m.2.walk filter ∧
        found.1 = m.1 :: names) := by
  obtain ⟨m, hm, ⟨executable, hfile, -, hnames⟩ | ⟨names, hfolder, -, hfound, hnames⟩⟩ :=
    mem_walk_ofMembers_iff.mp h
  · exact ⟨m, hm, .inl ⟨executable, hfile, hnames⟩⟩
  · exact ⟨m, hm, .inr ⟨names, hfolder, hfound, hnames⟩⟩

/-- What is found lies at its names, which are plain texts. -/
theorem at?_of_mem_walk {e : Entry} (he : e.WellNamed) {names : List Name} {content : List UInt8}
    (h : (names, content) ∈ e.walk filter) :
    (∃ executable, e.at? names = some (.file content executable)) ∧ names ≠ [] ∧
      ∀ name ∈ names, Name.IsPlain name ∧ ∃ text, name = Text.Utf8.encode text := by
  cases e with
  | file content executable => cases h
  | link target => cases h
  | folder members =>
    obtain ⟨m, hm, ⟨executable, hfile, hnames⟩ | ⟨below, -, hbelow, hnames⟩⟩ :=
      mem_walk_ofMembers h
    · obtain ⟨hlookup, hplain, htext, -⟩ := WellNamed.ofMembers.of_mem he hm
      dsimp only at hnames hfile
      subst hnames
      refine ⟨⟨executable, ?_⟩, List.cons_ne_nil _ _, ?_⟩
      · simp [Entry.at?, Entry.member?, hlookup, hfile]
      · intro name hname
        obtain rfl := List.mem_singleton.mp hname
        exact ⟨hplain, htext⟩
    · obtain ⟨hlookup, hplain, htext, hm'⟩ := WellNamed.ofMembers.of_mem he hm
      dsimp only at hnames hbelow
      subst hnames
      obtain ⟨⟨executable, hat⟩, -, hnames⟩ := at?_of_mem_walk hm' hbelow
      refine ⟨⟨executable, ?_⟩, List.cons_ne_nil _ _, ?_⟩
      · simp [Entry.at?, Entry.member?, hlookup, hat]
      · intro name hname
        rcases List.mem_cons.mp hname with rfl | hname
        · exact ⟨hplain, htext⟩
        · exact hnames name hname
termination_by names.length

/-- Of two files that are found, neither lies below the other. -/
theorem walk_ofMembers_pairwise (filter : ScanFilter) {members : List (Name × Entry)}
    (h : (folder members).Proper) :
    (walk.ofMembers filter members).Pairwise fun a b => Apart a.1 b.1 := by
  -- what is found in later members starts with other names
  have hlater : ∀ {name : Name} {rest : List (Name × Entry)}, name ∉ rest.map Prod.fst →
      ∀ names, ∀ b ∈ walk.ofMembers filter rest, Apart (name :: names) b.1 := by
    intro name rest hdistinct names b hb
    obtain ⟨m, hm, hfirst⟩ := mem_walk_ofMembers hb
    have hne : name ≠ m.1 := fun hname => hdistinct (hname ▸ List.mem_map_of_mem hm)
    obtain ⟨_, -, hfirst⟩ | ⟨_, -, -, hfirst⟩ := hfirst
    · rw [hfirst]
      exact apart_of_ne hne _ _
    · rw [hfirst]
      exact apart_of_ne hne _ _
  have hproper : ∀ {m : Name × Entry} {rest : List (Name × Entry)}, (folder (m :: rest)).Proper →
      m.1 ∉ rest.map Prod.fst ∧ m.2.Proper ∧ (folder rest).Proper := by
    intro m rest h
    obtain ⟨hdistinct, hmembers⟩ := proper_folder_iff.mp h
    obtain ⟨hfirst, hrest⟩ := List.nodup_cons.mp hdistinct
    obtain ⟨⟨-, hm⟩, hmembers⟩ := List.forall_mem_cons.mp hmembers
    exact ⟨hfirst, hm, proper_folder_iff.mpr ⟨hrest, hmembers⟩⟩
  fun_induction walk.ofMembers filter members with
  | case1 => exact .nil
  | case2 name content executable rest hwants ih =>
    obtain ⟨hdistinct, -, hrest⟩ := hproper h
    exact .cons (hlater hdistinct []) (ih hrest)
  | case3 name content executable rest hwants ih => exact ih (hproper h).2.2
  | case4 name members rest hskips ih => exact ih (hproper h).2.2
  | case5 name members rest hskips ihmembers ihrest =>
    obtain ⟨hdistinct, hmembers, hrest⟩ := hproper h
    refine List.pairwise_append.mpr ⟨?_, ihrest hrest, ?_⟩
    · exact List.pairwise_map.mpr ((ihmembers hmembers).imp fun hab => apart_cons.mpr hab)
    · intro a ha b hb
      obtain ⟨found, -, rfl⟩ := List.mem_map.mp ha
      exact hlater hdistinct found.1 b hb
  | case6 name target rest ih => exact ih (hproper h).2.2

theorem walk_pairwise (filter : ScanFilter) {e : Entry} (he : e.Proper) :
    (e.walk filter).Pairwise fun a b => Apart a.1 b.1 := by
  cases e with
  | folder members => exact walk_ofMembers_pairwise filter he
  | file content executable => exact .nil
  | link target => exact .nil

end Entry

/-- A file that the walk of a folder finds is where its names say. -/
theorem FileTree.entry_of_mem_walk {tree : FileTree} {dir : FilePath} {e : Entry}
    (htree : tree.root.WellNamed) (h : tree.entry dir = .ok e) {filter : ScanFilter}
    {names : List Name} {content : List UInt8} (hfound : (names, content) ∈ e.walk filter) :
    ∃ executable, tree.entry (dir.below names) = .ok (.file content executable) := by
  obtain ⟨⟨executable, hat⟩, -, hnames⟩ :=
    Entry.at?_of_mem_walk (FileTree.entry_wellNamed htree h) hfound
  exact ⟨executable, FileTree.entry_below h (fun name hname => (hnames name hname).1) hat
    (fun _ => nofun)⟩

end MemoHints
