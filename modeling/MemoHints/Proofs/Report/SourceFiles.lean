import Mathlib.Data.List.TakeWhile
import Mathlib.Logic.Relation
import MemoHints.Numbers
import MemoHints.Proofs.Report.Walk

/-!
# Which files a walk lists

The walk below a root lists a path exactly when the path goes on from the root, through folders that
are not passed over, to a file with a wanted extension, and it lists no path twice
(`FileTree.sourceFiles_exact`).  The loop over a stack of folders lists the same paths, in whatever
order the system gives the entries of a folder: each round leaves in place, but for its order, the
files found so far together with all that lies below the stack (`Scan.Step.perm`), and the stack
gets lighter (`Scan.Step.weight_lt`).
-/

namespace MemoHints

/-! ## Names -/

namespace FilePath

/-- A name has an extension when a dot stands in it that is not its first byte. -/
theorem extensionOfName_eq_some_iff {name ext : List UInt8} :
    extensionOfName name = some ext ↔
      ∃ stem, name = stem ++ dot :: ext ∧ stem ≠ [] ∧ dot ∉ ext := by
  unfold extensionOfName
  constructor
  · intro h
    simp only [Option.ite_none_right_eq_some, Option.some.injEq] at h
    obtain ⟨hlength, rfl⟩ := h
    have hname : name.reverse.takeWhile (· ≠ dot) ++ name.reverse.dropWhile (· ≠ dot) =
        name.reverse := List.takeWhile_append_dropWhile
    have hafter : dot ∉ name.reverse.takeWhile (· ≠ dot) := fun hdot => by
      simpa using List.mem_takeWhile_imp hdot
    have hfirst := List.head?_dropWhile_not (· ≠ dot) name.reverse
    generalize name.reverse.takeWhile (· ≠ dot) = after at hlength hname hafter ⊢
    cases hrest : name.reverse.dropWhile (· ≠ dot) with
    | nil =>
      -- without a dot all of the name would stand after it
      rw [hrest, List.append_nil] at hname
      rw [hname, List.reverse_reverse] at hlength
      omega
    | cons d before =>
      rw [hrest] at hname hfirst
      obtain rfl : d = dot := by simpa using hfirst
      have hbytes : name = before.reverse ++ dot :: after.reverse := by
        rw [← List.reverse_inj, ← hname]
        simp
      refine ⟨before.reverse, hbytes, ?_, fun hdot => hafter (List.mem_reverse.mp hdot)⟩
      rintro hempty
      rw [hbytes, hempty] at hlength
      simp at hlength
  · rintro ⟨stem, rfl, hstem, hext⟩
    have hnone : ∀ b ∈ ext.reverse, decide (b ≠ dot) = true := by
      intro b hb
      have hne : b ≠ dot := fun hdot => hext (hdot ▸ List.mem_reverse.mp hb)
      simpa using hne
    have hafter : (stem ++ dot :: ext).reverse.takeWhile (· ≠ dot) = ext.reverse := by
      rw [List.reverse_append, List.reverse_cons, List.append_assoc,
        List.takeWhile_append_of_pos hnone]
      simp
    have hlength : 0 < stem.length := List.length_pos_iff.mpr hstem
    simp only [hafter, List.reverse_reverse, List.length_append, List.length_cons]
    exact if_pos (by omega)

/-- Different names lead to different paths. -/
theorem below_injective {dir : FilePath} (hdir : dir.isEmpty = false) {names names' : List Name}
    (hnames : ∀ name ∈ names, Name.IsPlain name) (hnames' : ∀ name ∈ names', Name.IsPlain name)
    (h : dir.below names = dir.below names') : names = names' := by
  have hparts := congrArg parts h
  rw [parts_below hdir hnames, parts_below hdir hnames', List.append_cancel_left_eq] at hparts
  exact List.map_inj_right (fun _ _ => Part.name.inj) |>.mp hparts

variable {name : Name}

theorem parts_name (h : name.IsPlain) : parts ⟨name⟩ = [.name name] := by
  have hslash : ∀ b ∈ name, ¬ decide (b = slash) = true := by
    intro b hb
    have hne : b ≠ slash := fun hb' => h.slash_not_mem (hb' ▸ hb)
    simpa using hne
  simp [parts, not_isAbsolute_of_isPlain h, segments, Text.splitWhere_of_forall_not hslash,
    partOf_of_isPlain h]

/-- The extension of a path is that of its last name. -/
theorem dottedExtension_join_name {p : FilePath} (hp : p.isEmpty = false) (h : name.IsPlain) :
    (p.join ⟨name⟩).dottedExtension = dottedExtension ⟨name⟩ := by
  simp [dottedExtension, parts_join_name hp h, parts_name h]

end FilePath

namespace ScanFilter

/-- A folder of that name is passed over: the name is a text that is excluded. -/
def Excludes (filter : ScanFilter) (name : Name) : Prop :=
  ∃ text ∈ filter.excludes, Text.Utf8.decode? name = some text

/-- A file of that name is looked for: after the last dot of the name, which is not its first byte,
stands a text whose lowercase form is a wanted extension. -/
def Includes (filter : ScanFilter) (name : Name) : Prop :=
  ∃ stem ext text, name = stem ++ FilePath.dot :: ext ∧ stem ≠ [] ∧ FilePath.dot ∉ ext ∧
    Text.Utf8.decode? ext = some text ∧ "." ++ Text.lowercase text ∈ filter.extensions

variable {filter : ScanFilter} {name : Name}

theorem skips_eq_true_iff : filter.skips name = true ↔ filter.Excludes name := by
  unfold skips Excludes
  cases Text.Utf8.decode? name <;> simp

theorem wants_eq_true_iff (h : name.IsPlain) : filter.wants name = true ↔ filter.Includes name := by
  have hextension : (FilePath.mk name).dottedExtension =
      ((FilePath.extensionOfName name).bind Text.Utf8.decode?).map fun ext =>
        "." ++ Text.lowercase ext := by
    simp [FilePath.dottedExtension, FilePath.parts_name h]
  unfold wants Includes
  rw [hextension]
  constructor
  · intro hwants
    split at hwants
    next extension hsome =>
      obtain ⟨text, htext, rfl⟩ := Option.map_eq_some_iff.mp hsome
      obtain ⟨ext, hext, hdecode⟩ := Option.bind_eq_some_iff.mp htext
      obtain ⟨stem, hname, hstem, hdot⟩ := FilePath.extensionOfName_eq_some_iff.mp hext
      exact ⟨stem, ext, text, hname, hstem, hdot, hdecode, by simpa using hwants⟩
    next => cases hwants
  · rintro ⟨stem, ext, text, hname, hstem, hdot, hdecode, hwanted⟩
    have hext := FilePath.extensionOfName_eq_some_iff.mpr ⟨stem, hname, hstem, hdot⟩
    simpa [hext, hdecode] using hwanted

end ScanFilter

/-! ## Places -/

namespace Entry

variable {filter : ScanFilter}

/-- Only a folder has something below it. -/
theorem exists_folder_of_at? {e below : Entry} {front rest : List Name} (hrest : rest ≠ [])
    (h : e.at? (front ++ rest) = some below) : ∃ members, e.at? front = some (.folder members) := by
  rw [at?_append] at h
  obtain ⟨e', he', h⟩ := Option.bind_eq_some_iff.mp h
  cases rest with
  | nil => exact absurd rfl hrest
  | cons name rest =>
    cases e' with
    | folder members => exact ⟨members, he'⟩
    | file content executable => simp [at?, member?] at h
    | link target => simp [at?, member?] at h

theorem isPlain_of_at? {e below : Entry} (he : e.Proper) {names : List Name}
    (h : e.at? names = some below) : ∀ name ∈ names, Name.IsPlain name := by
  induction names generalizing e with
  | nil => nofun
  | cons first rest ih =>
    cases e with
    | file content executable => simp [at?, member?] at h
    | link target => simp [at?, member?] at h
    | folder members =>
      obtain ⟨hdistinct, hmembers⟩ := proper_folder_iff.mp he
      simp only [at?, member?] at h
      cases hlookup : members.lookup first with
      | none => simp [hlookup] at h
      | some m =>
        simp only [hlookup] at h
        obtain ⟨hfirst, hm⟩ := hmembers _ ((lookup_eq_some_iff_mem hdistinct).mp hlookup)
        exact List.forall_mem_cons.mpr ⟨hfirst, ih hm h⟩

/-- What is found lies behind folders that are not passed over, and has a name that is looked
for. -/
theorem mem_walk_iff {e : Entry} (he : e.Proper) {names : List Name} {content : List UInt8} :
    (names, content) ∈ e.walk filter ↔
      ∃ folders name executable, names = folders ++ [name] ∧
        e.at? names = some (.file content executable) ∧
        (∀ folder ∈ folders, filter.skips folder = false) ∧ filter.wants name = true := by
  induction names generalizing e with
  | nil =>
    constructor
    · intro h
      cases e with
      | file content executable => cases h
      | link target => cases h
      | folder members =>
        obtain ⟨m, -, ⟨_, -, -, hnil⟩ | ⟨_, -, -, -, hnil⟩⟩ := mem_walk_ofMembers_iff.mp h
        · cases hnil
        · cases hnil
    · rintro ⟨folders, name, -, hnil, -⟩
      simp at hnil
  | cons first rest ih =>
    cases e with
    | file content executable => simp [walk, at?, member?]
    | link target => simp [walk, at?, member?]
    | folder members =>
      obtain ⟨hdistinct, hmembers⟩ := proper_folder_iff.mp he
      constructor
      · intro h
        obtain ⟨m, hm, hfound⟩ := mem_walk_ofMembers_iff.mp h
        have hlookup : members.lookup m.1 = some m.2 := (lookup_eq_some_iff_mem hdistinct).mpr hm
        obtain ⟨executable, hfile, hwants, hnames⟩ | ⟨below, -, hskips, hbelow, hnames⟩ := hfound
        · cases hnames
          exact ⟨[], m.1, executable, rfl, by simp [at?, member?, hlookup, hfile], by simp, hwants⟩
        · cases hnames
          obtain ⟨folders, name, executable, hrest, hat, hfolders, hwants⟩ :=
            (ih (hmembers m hm).2).mp hbelow
          refine ⟨m.1 :: folders, name, executable, by rw [hrest]; rfl, ?_, ?_, hwants⟩
          · simpa [at?, member?, hlookup] using hat
          · exact List.forall_mem_cons.mpr ⟨hskips, hfolders⟩
      · rintro ⟨folders, name, executable, hnames, hat, hfolders, hwants⟩
        simp only [at?, member?] at hat
        cases hlookup : members.lookup first with
        | none => simp [hlookup] at hat
        | some m =>
          simp only [hlookup] at hat
          have hm : (first, m) ∈ members := (lookup_eq_some_iff_mem hdistinct).mp hlookup
          refine mem_walk_ofMembers_iff.mpr ⟨(first, m), hm, ?_⟩
          cases folders with
          | nil =>
            cases hnames
            cases hat
            exact .inl ⟨executable, rfl, hwants, rfl⟩
          | cons folder folders =>
            cases hnames
            obtain ⟨hskips, hfolders⟩ := List.forall_mem_cons.mp hfolders
            have hfolder : m.isFolder = true := by
              have hbelow : m.at? ([] ++ (folders ++ [name])) = _ := hat
              obtain ⟨sub, hsub⟩ := exists_folder_of_at? (by simp) hbelow
              cases hsub
              rfl
            exact .inr ⟨_, hfolder, hskips,
              (ih (hmembers _ hm).2).mpr ⟨folders, name, executable, rfl, hat, hfolders, hwants⟩,
              rfl⟩

end Entry

namespace FileTree

/-- The path goes on from the root to a file that is looked for, through folders that are not passed
over.  The root may be reached over links; below it all folders and the file are real. -/
def IsSource (tree : FileTree) (root : FilePath) (filter : ScanFilter) (path : FilePath) : Prop :=
  ∃ members folders name content executable,
    tree.entry root = .ok (.folder members) ∧
    path = root.below (folders ++ [name]) ∧
    (∀ front last rest, folders = front ++ last :: rest →
      (∃ members', (Entry.folder members).at? (front ++ [last]) = some (.folder members')) ∧
        ¬ filter.Excludes last) ∧
    (Entry.folder members).at? (folders ++ [name]) = some (.file content executable) ∧
    filter.Includes name

variable {tree : FileTree} {root : FilePath} {filter : ScanFilter}

theorem mem_sourceFiles_iff (htree : tree.root.Proper) {path : FilePath} :
    path ∈ tree.sourceFiles root filter ↔ tree.IsSource root filter path := by
  unfold sourceFiles IsSource
  cases hroot : tree.entry root with
  | error fault => simp
  | ok top =>
    have htop : top.Proper := entry_proper htree hroot
    simp only [Entry.sources_eq, List.mem_map, Prod.exists, Entry.mem_walk_iff htop]
    constructor
    · rintro ⟨_, content, ⟨folders, name, executable, rfl, hat, hfolders, hwants⟩, rfl⟩
      have hbelow : top.at? ([] ++ (folders ++ [name])) = _ := hat
      obtain ⟨members, htopFolder⟩ := Entry.exists_folder_of_at? (by simp) hbelow
      cases htopFolder
      have hplain := Entry.isPlain_of_at? htop hat
      refine ⟨members, folders, name, content, executable, rfl, rfl, ?_, hat,
        (ScanFilter.wants_eq_true_iff (hplain name (by simp))).mp hwants⟩
      rintro front last rest rfl
      have hsplit : front ++ last :: rest ++ [name] = (front ++ [last]) ++ (rest ++ [name]) := by
        simp
      rw [hsplit] at hat
      refine ⟨Entry.exists_folder_of_at? (by simp) hat, fun hexcluded => ?_⟩
      have hskips := ScanFilter.skips_eq_true_iff.mpr hexcluded
      simp [hfolders last (by simp)] at hskips
    · rintro ⟨members, folders, name, content, executable, htopFolder, rfl, hfolders, hat,
        hincludes⟩
      cases htopFolder
      have hplain := Entry.isPlain_of_at? htop hat
      refine ⟨_, content, ⟨folders, name, executable, rfl, hat, fun folder hfolder => ?_,
        (ScanFilter.wants_eq_true_iff (hplain name (by simp))).mpr hincludes⟩, rfl⟩
      obtain ⟨front, rest, hsplit⟩ := List.append_of_mem hfolder
      exact Bool.eq_false_iff.mpr fun hskips =>
        (hfolders front folder rest hsplit).2 (ScanFilter.skips_eq_true_iff.mp hskips)

theorem isFolder_eq_true_iff {p : FilePath} :
    tree.isFolder p = true ↔ ∃ members, tree.entry p = .ok (.folder members) := by
  unfold isFolder
  cases tree.entry p with
  | error fault => simp
  | ok e => cases e <;> simp [Entry.isFolder]

theorem sourceFiles_of_not_isFolder (h : tree.isFolder root = false) :
    tree.sourceFiles root filter = [] := by
  unfold isFolder at h
  unfold sourceFiles
  split
  next e hroot =>
    rw [hroot] at h
    cases e with
    | folder members => cases h
    | file content executable => rfl
    | link target => rfl
  next => rfl

theorem sourceFiles_nodup (htree : tree.root.Proper) : (tree.sourceFiles root filter).Nodup := by
  unfold sourceFiles
  cases hroot : tree.entry root with
  | error fault => exact .nil
  | ok top =>
    have htop : top.Proper := entry_proper htree hroot
    simp only [Entry.sources_eq]
    refine List.pairwise_map.mpr ((Entry.walk_pairwise filter htop).imp_of_mem ?_)
    rintro ⟨names, content⟩ ⟨names', content'⟩ hfound hfound' hapart hpath
    obtain ⟨_, _, _, -, hat, -⟩ := (Entry.mem_walk_iff htop).mp hfound
    obtain ⟨_, _, _, -, hat', -⟩ := (Entry.mem_walk_iff htop).mp hfound'
    obtain rfl : names = names' :=
      FilePath.below_injective (isEmpty_of_entry hroot) (Entry.isPlain_of_at? htop hat)
        (Entry.isPlain_of_at? htop hat') hpath
    exact hapart.1 (List.prefix_refl names)

end FileTree

/-! ## The loop -/

/-- What a member of the folder at `dir` brings to a walk. -/
def Entry.sourcesOfMember (filter : ScanFilter) (dir : FilePath) : Name × Entry → List FilePath
  | (name, .file _ _) => if filter.wants name then [dir.join ⟨name⟩] else []
  | (name, .folder members) =>
    if filter.skips name then [] else (Entry.folder members).sources filter (dir.join ⟨name⟩)
  | (_, .link _) => []

theorem Entry.sources_folder (filter : ScanFilter) (dir : FilePath)
    (members : List (Name × Entry)) :
    (folder members).sources filter dir = members.flatMap (sourcesOfMember filter dir) := by
  show sources.ofMembers filter dir members = _
  induction members with
  | nil => simp [sources.ofMembers]
  | cons m rest ih =>
    obtain ⟨name, e⟩ := m
    rw [List.flatMap_cons, ← ih]
    cases e with
    | file content executable =>
      by_cases hwants : filter.wants name = true <;>
        simp [sources.ofMembers, sourcesOfMember, hwants]
    | folder members =>
      by_cases hskips : filter.skips name = true <;>
        simp [sources.ofMembers, sourcesOfMember, sources, hskips]
    | link target => simp [sources.ofMembers, sourcesOfMember]

/-- The folders that are listed below an entry, and the entry itself. -/
def Entry.rounds (filter : ScanFilter) : Entry → Nat
  | .folder members => 1 + ofMembers members
  | .file _ _ | .link _ => 1
where
  ofMembers : List (Name × Entry) → Nat
    | [] => 0
    | (name, .folder members) :: rest =>
      if filter.skips name then ofMembers rest else 1 + ofMembers members + ofMembers rest
    | (_, .file _ _) :: rest | (_, .link _) :: rest => ofMembers rest
  termination_by members => sizeOf members
  decreasing_by all_goals simp +arith

/-- The rounds that a member of a folder brings to a walk. -/
def Entry.roundsOfMember (filter : ScanFilter) : Name × Entry → Nat
  | (name, .folder members) => if filter.skips name then 0 else (Entry.folder members).rounds filter
  | (_, .file _ _) | (_, .link _) => 0

theorem Entry.rounds_folder (filter : ScanFilter) (members : List (Name × Entry)) :
    (folder members).rounds filter = 1 + (members.map (roundsOfMember filter)).sum := by
  show 1 + rounds.ofMembers filter members = _
  congr 1
  induction members with
  | nil => simp [rounds.ofMembers]
  | cons m rest ih =>
    obtain ⟨name, e⟩ := m
    rw [List.map_cons, List.sum_cons, ← ih]
    cases e with
    | folder members =>
      by_cases hskips : filter.skips name = true <;>
        simp [rounds.ofMembers, roundsOfMember, rounds, hskips]
    | file content executable => simp [rounds.ofMembers, roundsOfMember]
    | link target => simp [rounds.ofMembers, roundsOfMember]

namespace Scan

variable {tree : FileTree} {filter : ScanFilter} {dir : FilePath} {members : List (Name × Entry)}

/-- What a walk has found and will find. -/
def outcome (tree : FileTree) (filter : ScanFilter) (scan : Scan) : List FilePath :=
  scan.files ++ scan.stack.flatMap (tree.sourceFiles · filter)

/-- The rounds that a walk still takes. -/
def rounds (tree : FileTree) (filter : ScanFilter) (scan : Scan) : Nat :=
  (scan.stack.map fun dir =>
    match tree.entry dir with
    | .ok e => e.rounds filter
    | .error _ => 1).sum

theorem rounds_cons {e : Entry} (hdir : tree.entry dir = .ok e) (stack files : List FilePath) :
    rounds tree filter ⟨dir :: stack, files⟩ =
      e.rounds filter + rounds tree filter ⟨stack, files⟩ := by
  simp [rounds, hdir]

theorem visit_file {name : Name} (hdir : dir.isEmpty = false) (hname : name.IsPlain) (scan : Scan)
    (content : List UInt8) (executable : Bool) :
    scan.visit filter dir (name, .file content executable) =
      if filter.wants name then { scan with files := scan.files ++ [dir.join ⟨name⟩] }
      else scan := by
  have hextension := FilePath.dottedExtension_join_name hdir hname
  cases hname : FilePath.dottedExtension ⟨name⟩ with
  | none => simp [visit, ScanFilter.wants, hextension, hname]
  | some extension => simp [visit, ScanFilter.wants, hextension, hname]

section Visit

variable (filter) (htree : tree.root.Proper) (hdir : tree.entry dir = .ok (.folder members))
include htree hdir

/-- An entry that is looked at adds what it brings. -/
theorem visit_adds (scan : Scan) {m : Name × Entry} (hm : m ∈ members) :
    ((scan.visit filter dir m).outcome tree filter).Perm
        (scan.outcome tree filter ++ Entry.sourcesOfMember filter dir m) ∧
      (scan.visit filter dir m).rounds tree filter =
        scan.rounds tree filter + Entry.roundsOfMember filter m := by
  obtain ⟨name, e⟩ := m
  obtain ⟨hdistinct, hmembers⟩ := Entry.proper_folder_iff.mp (FileTree.entry_proper htree hdir)
  have hlookup := (lookup_eq_some_iff_mem hdistinct).mpr hm
  have hplain : name.IsPlain := (hmembers _ hm).1
  cases e with
  | link target => exact ⟨by simp [visit, Entry.sourcesOfMember], rfl⟩
  | file content executable =>
    rw [visit_file (FileTree.isEmpty_of_entry hdir) hplain]
    by_cases hwants : filter.wants name = true
    · rw [if_pos hwants]
      refine ⟨?_, rfl⟩
      simp only [outcome, Entry.sourcesOfMember, hwants, if_true, List.append_assoc]
      exact List.perm_append_comm.append_left _
    · rw [if_neg hwants]
      exact ⟨by simp [Entry.sourcesOfMember, hwants], rfl⟩
  | folder below =>
    have hbelow : tree.entry (dir.join ⟨name⟩) = .ok (.folder below) :=
      FileTree.entry_join_name hdir hplain hlookup (fun _ => nofun)
    by_cases hskips : filter.skips name = true
    · exact ⟨by simp [visit, Entry.sourcesOfMember, hskips],
        by simp [visit, Entry.roundsOfMember, hskips]⟩
    · have hbrought : Entry.sourcesOfMember filter dir (name, .folder below) =
          tree.sourceFiles (dir.join ⟨name⟩) filter := by
        simp [Entry.sourcesOfMember, hskips, FileTree.sourceFiles, hbelow]
      have hvisit : scan.visit filter dir (name, .folder below) =
          { scan with stack := dir.join ⟨name⟩ :: scan.stack } := by simp [visit, hskips]
      rw [hvisit, hbrought]
      refine ⟨?_, ?_⟩
      · simp only [outcome, List.flatMap_cons, List.append_assoc]
        exact List.perm_append_comm.append_left _
      · rw [rounds_cons hbelow, Nat.add_comm]
        simp [Entry.roundsOfMember, hskips]

theorem foldl_visit_adds (scan : Scan) {entries : List (Name × Entry)}
    (hentries : ∀ m ∈ entries, m ∈ members) :
    ((entries.foldl (visit filter dir) scan).outcome tree filter).Perm
        (scan.outcome tree filter ++ entries.flatMap (Entry.sourcesOfMember filter dir)) ∧
      (entries.foldl (visit filter dir) scan).rounds tree filter =
        scan.rounds tree filter + (entries.map (Entry.roundsOfMember filter)).sum := by
  induction entries generalizing scan with
  | nil => exact ⟨by simp, rfl⟩
  | cons m rest ih =>
    obtain ⟨hm, hrest⟩ := List.forall_mem_cons.mp hentries
    obtain ⟨hperm, hrounds⟩ := visit_adds filter htree hdir scan hm
    obtain ⟨hpermRest, hroundsRest⟩ := ih (scan.visit filter dir m) hrest
    constructor
    · rw [List.foldl_cons, List.flatMap_cons, ← List.append_assoc]
      exact hpermRest.trans (hperm.append_right _)
    · rw [List.foldl_cons, List.map_cons, List.sum_cons, hroundsRest, hrounds, Nat.add_assoc]

end Visit

namespace Step

variable {scan next : Scan}

/-- A round changes no more than the order of what has been found and will be found. -/
theorem perm (h : Step tree filter scan next) (htree : tree.root.Proper) :
    (next.outcome tree filter).Perm (scan.outcome tree filter) := by
  cases h with
  | @passed dir stack files hdir =>
    simp [outcome, FileTree.sourceFiles_of_not_isFolder hdir]
  | @listed dir stack files members entries hdir hentries =>
    have hadds := foldl_visit_adds filter htree hdir ⟨stack, files⟩ fun m => hentries.mem_iff.mp
    refine hadds.1.trans ?_
    have hlisted : tree.sourceFiles dir filter =
        members.flatMap (Entry.sourcesOfMember filter dir) := by
      rw [FileTree.sourceFiles, hdir]
      exact Entry.sources_folder filter dir members
    simp only [outcome, List.flatMap_cons, hlisted, List.append_assoc]
    refine List.Perm.append_left _ (List.perm_append_comm.trans ?_)
    exact (hentries.flatMap_right _).append_right _

/-- A round is one less to go. -/
theorem rounds_eq (h : Step tree filter scan next) (htree : tree.root.Proper) :
    scan.rounds tree filter = next.rounds tree filter + 1 := by
  cases h with
  | @passed dir stack files hdir =>
    unfold FileTree.isFolder at hdir
    cases hentry : tree.entry dir with
    | error fault => simp [rounds, hentry, Nat.add_comm]
    | ok e =>
      rw [hentry] at hdir
      rw [rounds_cons hentry, Nat.add_comm]
      cases e with
      | folder members => cases hdir
      | file content executable => rfl
      | link target => rfl
  | @listed dir stack files members entries hdir hentries =>
    have hadds := foldl_visit_adds filter htree hdir ⟨stack, files⟩ fun m => hentries.mem_iff.mp
    have hsum := (hentries.map (Entry.roundsOfMember filter)).sum_nat
    rw [hadds.2, hsum, rounds_cons hdir, Entry.rounds_folder]
    omega

end Step

/-- A walk that has not ended goes on. -/
theorem exists_step (tree : FileTree) (filter : ScanFilter) {scan : Scan} (h : scan.stack ≠ []) :
    ∃ next, Step tree filter scan next := by
  obtain ⟨stack, files⟩ := scan
  cases stack with
  | nil => exact absurd rfl h
  | cons dir stack =>
    cases hdir : tree.isFolder dir with
    | false => exact ⟨_, .passed hdir⟩
    | true =>
      obtain ⟨members, hentry⟩ := FileTree.isFolder_eq_true_iff.mp hdir
      exact ⟨_, .listed hentry (.refl members)⟩

/-- Every walk can be brought to its end. -/
theorem exists_end (filter : ScanFilter) (htree : tree.root.Proper) (scan : Scan) :
    ∃ final, Relation.ReflTransGen (Step tree filter) scan final ∧ final.stack = [] := by
  by_cases hend : scan.stack = []
  · exact ⟨scan, .refl, hend⟩
  · obtain ⟨next, hstep⟩ := exists_step tree filter hend
    have hless : next.rounds tree filter < scan.rounds tree filter := by
      rw [hstep.rounds_eq htree]
      exact Nat.lt_succ_self _
    obtain ⟨final, hfinal, hstack⟩ := exists_end filter htree next
    exact ⟨final, .head hstep hfinal, hstack⟩
termination_by scan.rounds tree filter

/-- A walk of so many rounds, each of them one less to go. -/
theorem rounds_run (htree : tree.root.Proper) {run : Nat → Scan}
    (hrun : ∀ n, Step tree filter (run n) (run (n + 1))) (n : Nat) :
    (run 0).rounds tree filter = (run n).rounds tree filter + n := by
  induction n with
  | zero => rfl
  | succ n ih => rw [ih, (hrun n).rounds_eq htree, Nat.add_assoc, Nat.add_comm 1]

theorem outcome_perm_of_reaches (htree : tree.root.Proper) {scan later : Scan}
    (h : Relation.ReflTransGen (Step tree filter) scan later) :
    (later.outcome tree filter).Perm (scan.outcome tree filter) := by
  induction h with
  | refl => exact .refl _
  | tail _ hstep ih => exact (hstep.perm htree).trans ih

/-- A walk that has ended has found the source files, in an order of its own. -/
theorem files_perm_of_reaches (htree : tree.root.Proper) {root : FilePath} {final : Scan}
    (h : Relation.ReflTransGen (Step tree filter) (.start root) final) (hend : final.stack = []) :
    final.files.Perm (tree.sourceFiles root filter) := by
  have houtcome := outcome_perm_of_reaches htree h
  simpa [outcome, start, hend] using houtcome

end Scan

/-- In a tree that a file system can hold the walk lists the source files below its root, each once,
and nothing when the root is no folder.  The loop over a stack of folders comes to an end whatever
happens and whatever the order in which the entries of folders are given, and has then found the
same files. -/
theorem FileTree.sourceFiles_exact {tree : FileTree} (htree : tree.root.Proper) (root : FilePath)
    (filter : ScanFilter) :
    (tree.sourceFiles root filter).Nodup ∧
    (∀ path, path ∈ tree.sourceFiles root filter ↔ tree.IsSource root filter path) ∧
    (tree.isFolder root = false → tree.sourceFiles root filter = []) ∧
    (¬ ∃ run : Nat → Scan, run 0 = .start root ∧
      ∀ n, Scan.Step tree filter (run n) (run (n + 1))) ∧
    (∃ final, Relation.ReflTransGen (Scan.Step tree filter) (.start root) final ∧
      final.stack = []) ∧
    ∀ scan, Relation.ReflTransGen (Scan.Step tree filter) (.start root) scan →
      (scan.stack ≠ [] → ∃ next, Scan.Step tree filter scan next) ∧
      (scan.stack = [] → scan.files.Perm (tree.sourceFiles root filter)) := by
  refine ⟨sourceFiles_nodup htree, fun path => mem_sourceFiles_iff htree,
    sourceFiles_of_not_isFolder, ?_, Scan.exists_end filter htree _,
    fun scan hscan => ⟨Scan.exists_step tree filter, Scan.files_perm_of_reaches htree hscan⟩⟩
  rintro ⟨run, -, hrun⟩
  have hrounds := Scan.rounds_run htree hrun ((run 0).rounds tree filter + 1)
  omega

/-- A folder `d` with a file `A.JS`, a file `.js` that has no extension, a folder `x`, a folder `y`,
and a link `l.js` that leads nowhere.  In `x` lies `b.js`, and in `y` a file with a name that is no
text and a link `u` back to `d`. -/
def linkedFiles : FileTree :=
  { root := .folder [([0x64], .folder [
      ([0x41, 0x2e, 0x4a, 0x53], .file [] false),
      ([0x2e, 0x6a, 0x73], .file [] false),
      ([0x78], .folder [([0x62, 0x2e, 0x6a, 0x73], .file [] false)]),
      ([0x79], .folder [([0xff, 0x2e, 0x6a, 0x73], .file [] false),
        ([0x75], .link (.ofString "../../d"))]),
      ([0x6c, 0x2e, 0x6a, 0x73], .link (.ofString "nowhere"))])]
    cwd := [] }

/-- The root is excluded by name, which does not matter. -/
def linkedFilter : ScanFilter := { extensions := [".js"], excludes := ["d", "x"] }

theorem linkedFiles_proper : linkedFiles.root.Proper := by
  simp only [linkedFiles, Entry.proper_folder_iff, List.forall_mem_cons, List.not_mem_nil,
    false_implies, implies_true, and_true, Entry.proper_file, Entry.proper_link]
  decide

theorem linkedFiles_entry : ∃ members, linkedFiles.entry ⟨[FilePath.slash, 0x64]⟩ =
    .ok (.folder members) ∧ (Entry.folder members).sources linkedFilter ⟨[FilePath.slash, 0x64]⟩ =
      [.ofString "/d/A.JS", ⟨[0x2f, 0x64, 0x2f, 0x79, 0x2f, 0xff, 0x2e, 0x6a, 0x73]⟩] := by
  have hroot : linkedFiles.entry ⟨[FilePath.slash]⟩ = .ok linkedFiles.root :=
    FileTree.entry_slash rfl
  have hname : Name.IsPlain [0x64] := by decide
  refine ⟨_, FileTree.entry_join_name hroot hname rfl (fun _ => nofun), ?_⟩
  have hwants : linkedFilter.wants [0x41, 0x2e, 0x4a, 0x53] = true ∧
      linkedFilter.wants [0x2e, 0x6a, 0x73] = false ∧
      linkedFilter.wants [0xff, 0x2e, 0x6a, 0x73] = true := by
    decide +kernel
  have hskips : linkedFilter.skips [0x78] = true ∧ linkedFilter.skips [0x79] = false := by
    decide +kernel
  obtain ⟨hupper, hdotfile, hbytes⟩ := hwants
  simp only [Entry.sources, Entry.sources.ofMembers, hupper, hdotfile, hbytes, hskips, if_true,
    if_false, Bool.false_eq_true, List.append_nil]
  decide +kernel

/-- The link back to `d` does not lead the walk around, and the link `l.js` is no file. -/
theorem linkedFiles_sources :
    let root : FilePath := ⟨[FilePath.slash, 0x64]⟩
    let found : List FilePath :=
      [.ofString "/d/A.JS", ⟨[0x2f, 0x64, 0x2f, 0x79, 0x2f, 0xff, 0x2e, 0x6a, 0x73]⟩]
    (∀ path, linkedFiles.IsSource root linkedFilter path ↔ path ∈ found) ∧
      (∃ final, Relation.ReflTransGen (Scan.Step linkedFiles linkedFilter) (.start root) final ∧
        final.files.Perm found) ∧
      linkedFiles.sourceFiles ⟨[]⟩ linkedFilter = [] := by
  intro root found
  obtain ⟨members, hentry, hfound⟩ := linkedFiles_entry
  have hsources : linkedFiles.sourceFiles root linkedFilter = found := by
    rw [FileTree.sourceFiles, hentry]
    exact hfound
  obtain ⟨-, hmem, -, -, ⟨final, hfinal, hend⟩, hfiles⟩ :=
    FileTree.sourceFiles_exact linkedFiles_proper root linkedFilter
  rw [hsources] at hmem hfiles
  have hnowhere := FileTree.sourceFiles_exact linkedFiles_proper ⟨[]⟩ linkedFilter
  exact ⟨fun path => (hmem path).symm, ⟨final, hfinal, (hfiles final hfinal).2 hend⟩,
    hnowhere.2.2.1 rfl⟩

end MemoHints
