import MemoHints.Proofs.Report.CanonicalTree

/-!
# A tree over any files is well formed

Files may get into each other's way: their paths have no parts, or one lies at another or below it.
Such a file leaves the tree as it is (`insert_of_not_apart`), so a tree over any files is the tree
over those that are kept, and these lie apart (`ofFiles_kept`).

## What is kept

A file is kept when it lies apart from those kept before it.  So of the files at one path only the
first can be kept (`find?_of_mem_kept`), and one that is not kept has another in its way
(`exists_mem_kept`).  What is known of trees over files that lie apart is then known of any tree
(`ofFiles_wellFormed`).
-/

namespace MemoHints.TreeNode

/-! ## Files in the way of others -/

theorem insert_of_file {result : FileResult} {path part : String} {rest : List String}
    {nodes : List TreeNode} (hany : nodes.any (·.name = part) = true)
    (hfile : ∀ m ∈ nodes, m.name = part → m.isFolder = false) :
    insert result path (part :: rest) nodes = nodes := by
  rw [TreeNode.insert.eq_def]
  simp only [hany, if_true]
  refine (List.map_congr_left fun m hm => ?_).trans (List.map_id' nodes)
  cases m with
  | folder name p children s f =>
    have hname : name ≠ part := fun hname => absurd (hfile _ hm hname) (by simp [isFolder])
    exact if_neg hname
  | file name p success failed => rfl

/-- A file with another one in its way changes nothing. -/
theorem insert_of_not_apart {result : FileResult} {path : String} {parts : List String}
    {nodes : List TreeNode} (hgrown : Grown.all nodes) {way : List String × FileResult}
    (hway : way ∈ ways.ofAll nodes) (h : ¬ Apart way.1 parts) :
    insert result path parts nodes = nodes := by
  induction parts generalizing path nodes way with
  | nil => rw [TreeNode.insert]
  | cons part rest ih =>
    obtain ⟨node, hnode, hown⟩ := mem_ways_ofAll.mp hway
    obtain ⟨below, hbelow⟩ := List.head?_eq_some_iff.mp (head?_of_mem_ways hown)
    rw [hbelow] at h
    have hname : node.name = part := by
      by_contra hne
      exact h (apart_of_ne hne _ _)
    have hany : nodes.any (·.name = part) = true :=
      List.any_eq_true.mpr ⟨node, hnode, decide_eq_true hname⟩
    obtain ⟨before, after, rfl⟩ := List.append_of_mem hnode
    obtain ⟨-, ⟨hthis, hafter, -⟩, hbefore⟩ := Grown.all_append.mp hgrown
    have hnames : ∀ m ∈ before, m.name ≠ part := fun m hm hsame =>
      hbefore m hm _ List.mem_cons_self (hname.trans hsame.symm)
    cases node with
    | file name p success failed =>
      refine insert_of_file hany fun m hm hsame => ?_
      rcases List.mem_append.mp hm with hm | hm
      · exact absurd hsame (hnames m hm)
      · rcases List.mem_cons.mp hm with rfl | hm
        · rfl
        · exact absurd (hsame.trans hname.symm) (hafter m hm)
    | folder name p children s f =>
      obtain rfl : name = part := hname
      rw [insert_of_folder hnames hafter]
      obtain ⟨inner, hinner, rfl⟩ := List.mem_map.mp hown
      obtain rfl := (List.cons.inj hbelow).2
      rw [ih hthis.2 hinner (mt apart_cons.mpr h)]

/-! ## The files that are kept -/

/-- Whether a file finds its place beside others. -/
def Fits (kept : List FileResult) (file : FileResult) : Prop :=
  partsOf file.path ≠ [] ∧ ∀ other ∈ kept, Apart (partsOf other.path) (partsOf file.path)

instance (a b : List String) : Decidable (Apart a b) :=
  inferInstanceAs (Decidable (¬ a <+: b ∧ ¬ b <+: a))

instance (kept : List FileResult) : DecidablePred (Fits kept) := fun file =>
  inferInstanceAs (Decidable (partsOf file.path ≠ [] ∧
    ∀ other ∈ kept, Apart (partsOf other.path) (partsOf file.path)))

/-- The files that a tree holds, of those it is made over. -/
def kept (files : List FileResult) : List FileResult :=
  files.foldl (fun kept file => if Fits kept file then kept ++ [file] else kept) []

variable {files : List FileResult}

theorem kept_append_singleton (files : List FileResult) (file : FileResult) :
    kept (files ++ [file]) =
      if Fits (kept files) file then kept files ++ [file] else kept files := by
  simp only [kept, List.foldl_append, List.foldl_cons, List.foldl_nil]
  rfl

/-- Files that are kept have paths, and lie apart. -/
theorem kept_fits (files : List FileResult) : (∀ file ∈ kept files, partsOf file.path ≠ []) ∧
    (kept files).Pairwise fun a b => Apart (partsOf a.path) (partsOf b.path) := by
  induction files using List.reverseRecOn with
  | nil => exact ⟨List.forall_mem_nil _, .nil⟩
  | append_singleton files file ih =>
    obtain ⟨hparts, hapart⟩ := ih
    rw [kept_append_singleton]
    split
    next hfits =>
      refine ⟨List.forall_mem_append.mpr ⟨hparts, List.forall_mem_singleton.mpr hfits.1⟩, ?_⟩
      refine List.pairwise_append.mpr ⟨hapart, List.pairwise_singleton _ _, fun a ha b hb => ?_⟩
      rw [List.mem_singleton.mp hb]
      exact hfits.2 a ha
    next => exact ⟨hparts, hapart⟩

/-- A file that is not kept has one in its way that is. -/
theorem exists_mem_kept {file : FileResult} (hfile : file ∈ files)
    (hparts : partsOf file.path ≠ []) :
    ∃ other ∈ kept files, ¬ Apart (partsOf other.path) (partsOf file.path) := by
  induction files using List.reverseRecOn with
  | nil => cases hfile
  | append_singleton files last ih =>
    rw [kept_append_singleton]
    rcases List.mem_append.mp hfile with hfile | hfile
    · obtain ⟨other, hother, hway⟩ := ih hfile
      refine ⟨other, ?_, hway⟩
      split
      · exact List.mem_append_left _ hother
      · exact hother
    · obtain rfl := List.mem_singleton.mp hfile
      split
      next =>
        exact ⟨file, List.mem_append_right _ (List.mem_singleton_self _),
          fun h => h.1 List.prefix_rfl⟩
      next hfits => simpa [Fits, hparts] using hfits

/-- Of the files at one path, the first is kept if any is. -/
theorem find?_of_mem_kept {file : FileResult} (hfile : file ∈ kept files) :
    files.find? (partsOf ·.path = partsOf file.path) = some file := by
  induction files using List.reverseRecOn with
  | nil => cases hfile
  | append_singleton files last ih =>
    rw [kept_append_singleton] at hfile
    split at hfile
    next hfits =>
      rcases List.mem_append.mp hfile with hfile | hfile
      · rw [List.find?_append, ih hfile, Option.some_or]
      · obtain rfl := List.mem_singleton.mp hfile
        have hnone : files.find? (partsOf ·.path = partsOf file.path) = none := by
          refine List.find?_eq_none.mpr fun earlier hearlier hsame => ?_
          have hsame : partsOf earlier.path = partsOf file.path := of_decide_eq_true hsame
          obtain ⟨other, hother, hway⟩ := exists_mem_kept hearlier (hsame ▸ hfits.1)
          exact hway (hsame ▸ hfits.2 other hother)
        rw [List.find?_append, hnone, Option.none_or]
        simp
    next => rw [List.find?_append, ih hfile, Option.some_or]

theorem insertAll_kept (files : List FileResult) : insertAll files = insertAll (kept files) := by
  have hinsert : ∀ (files : List FileResult) (file : FileResult), insertAll (files ++ [file]) =
      insert file "" (partsOf file.path) (insertAll files) := fun files file => by
    simp only [insertAll, List.foldl_append, List.foldl_cons, List.foldl_nil]
  induction files using List.reverseRecOn with
  | nil => rfl
  | append_singleton files file ih =>
    rw [hinsert, ih, kept_append_singleton]
    split
    next => rw [hinsert]
    next hfits =>
      obtain ⟨hgrown, hways⟩ := insertAll_ways (kept_fits files).1 (kept_fits files).2
      rcases eq_or_ne (partsOf file.path) [] with hparts | hparts
      · rw [hparts, TreeNode.insert]
      · obtain ⟨other, hother, hway⟩ : ∃ other ∈ kept files,
            ¬ Apart (partsOf other.path) (partsOf file.path) := by
          simpa [Fits, hparts] using hfits
        exact insert_of_not_apart hgrown (hways.mem_iff.mpr (List.mem_map_of_mem hother)) hway

/-- **The tree over any files is the tree over those that are kept.** -/
theorem ofFiles_kept (files : List FileResult) : ofFiles files = ofFiles (kept files) := by
  rw [ofFiles, insertAll_kept, ofFiles]

/-- Of the files in each other's way the first is kept. -/
example : (kept [⟨"a//b", [], []⟩, ⟨"/", [], []⟩, ⟨"c", [], []⟩, ⟨"a", [], []⟩, ⟨"/a/b/", [{}], []⟩,
    ⟨"c/d", [], []⟩, ⟨"a/e", [], []⟩]).map (·.path) = ["a//b", "c", "a/e"] := by
  decide

/-! ## Nodes of a settled tree -/

theorem Settled.of_mem_children {node c : TreeNode} (h : node.Settled) (hc : c ∈ node.children) :
    c.Settled := by
  cases node with
  | file name path success failed => cases hc
  | folder name path children s f => exact h.of_mem hc

theorem Grown.of_mem_children {node c : TreeNode} (h : node.Grown) (hc : c ∈ node.children) :
    c.Grown :=
  (Grown.all_iff.mp h.all_children).1 c hc

/-- A node below another one is a child of a node that is not above it. -/
theorem mem_nodes_cases {node m : TreeNode} (h : m ∈ node.nodes) :
    m = node ∨ ∃ parent ∈ node.nodes, m ∈ parent.children := by
  induction node using memberInduction with
  | file name path success failed => exact .inl (List.mem_singleton.mp h)
  | folder name path children s f ih =>
    rcases mem_nodes_folder.mp h with rfl | ⟨c, hc, hm⟩
    · exact .inl rfl
    · refine .inr ?_
      rcases ih c hc hm with rfl | ⟨parent, hparent, hchild⟩
      · exact ⟨_, mem_nodes_self _, hc⟩
      · exact ⟨parent, mem_nodes_folder.mpr (.inr ⟨c, hc, hparent⟩), hchild⟩

theorem PlacedIn.path_ne {path : String} {node : TreeNode} (h : node.PlacedIn path) :
    node.path ≠ "" := by
  rw [h.path_eq, childPath]
  split
  · exact h.isPart.1
  · simp

/-- Folders first, in two lists. -/
theorem folders_before_files {l : List TreeNode} (h : l.Pairwise (precedes · ·)) :
    l = l.filter (·.isFolder) ++ l.filter (!·.isFolder) := by
  induction l with
  | nil => rfl
  | cons node l ih =>
    obtain ⟨hnode, hl⟩ := List.pairwise_cons.mp h
    have hsplit := ih hl
    cases hfolder : node.isFolder with
    | true =>
      rw [List.filter_cons_of_pos hfolder, List.filter_cons_of_neg (by simp [hfolder]),
        List.cons_append, ← hsplit]
    | false =>
      have hnone : l.filter (·.isFolder) = [] := by
        refine List.filter_eq_nil_iff.mpr fun m hm hfolder' => ?_
        rcases precedes_iff.mp (hnode m hm) with ⟨hfirst, -⟩ | ⟨hkind, -⟩
        · exact absurd (hfirst.symm.trans hfolder) (by decide)
        · exact absurd (hfolder'.symm.trans (hkind.symm.trans hfolder)) (by decide)
      rw [hnone, List.nil_append] at hsplit
      rw [List.filter_cons_of_neg (by simp [hfolder]), hnone, List.nil_append,
        List.filter_cons_of_pos (by simp [hfolder]), ← hsplit]

/-- Nodes of one kind are in strict order. -/
theorem names_ascending {l : List TreeNode} (horder : l.Pairwise (precedes · ·))
    (hnames : l.Pairwise fun a b => b.name ≠ a.name) (kind : Bool) :
    ((l.filter (·.isFolder = kind)).map name).Pairwise (· < ·) := by
  refine List.pairwise_map.mpr (((horder.and hnames).filter _).imp_of_mem ?_)
  rintro a b ha hb ⟨hab, hne⟩
  have hka : a.isFolder = kind := of_decide_eq_true (List.mem_filter.mp ha).2
  have hkb : b.isFolder = kind := of_decide_eq_true (List.mem_filter.mp hb).2
  rcases precedes_iff.mp hab with ⟨hfolder, hfile⟩ | ⟨-, hle⟩
  · rw [hka] at hfolder
    rw [hkb] at hfile
    exact absurd (hfolder.symm.trans hfile) (by decide)
  · exact Classical.byContradiction fun hnot =>
      hne (String.le_antisymm (String.not_lt.mp hnot) hle)

/-! ## Well-formed trees -/

/-- A tree of folders and files, as its readers rely on it. -/
structure WellFormed (tree : TreeNode) (files : List FileResult) : Prop where
  /-- Siblings have different names, and each is one part of a path. -/
  names : ∀ node ∈ tree.nodes, (node.children.map name).Nodup ∧ ∀ c ∈ node.children, IsPart c.name
  /-- Folders stand before files, both by name. -/
  order : ∀ node ∈ tree.nodes, ∃ folders leaves, node.children = folders ++ leaves ∧
    (∀ c ∈ folders, c.isFolder = true) ∧ (∀ c ∈ leaves, c.isFolder = false) ∧
    (folders.map name).Pairwise (· < ·) ∧ (leaves.map name).Pairwise (· < ·)
  /-- A path is that of the folder above and the name. -/
  topPaths : ∀ top ∈ tree.children, top.path = top.name
  paths : ∀ top ∈ tree.children, ∀ node ∈ top.nodes, ∀ c ∈ node.children,
    c.path = node.path ++ "/" ++ c.name
  /-- Folders carry the sums over their children. -/
  counts : ∀ node ∈ tree.nodes, node.isFolder = true →
    node.successCount = (node.children.map successCount).sum ∧
      node.failedCount = (node.children.map failedCount).sum
  /-- No folder but the root is without files. -/
  inhabited : ∀ top ∈ tree.children, ∀ node ∈ top.nodes, ∃ leaf ∈ node.nodes, leaf.isFolder = false
  /-- A file node is that of the first file at its path. -/
  fileNodes : ∀ node ∈ tree.nodes, node.isFolder = false → node.children = [] ∧
    ∃ file, files.find? (partsOf ·.path = partsOf node.path) = some file ∧ node = leaf file ∧
      node.successCount = file.success.length ∧ node.failedCount = file.failed.length
  /-- A file that has a path is in the tree, or one that is in its way. -/
  covers : ∀ file ∈ files, partsOf file.path ≠ [] → ∃ node ∈ tree.nodes, node.isFolder = false ∧
    ¬ Apart (partsOf node.path) (partsOf file.path)

theorem mem_nodes_of_mem_children {node top m : TreeNode} (htop : top ∈ node.children)
    (hm : m ∈ top.nodes) : m ∈ node.nodes := by
  cases node with
  | file name path success failed => cases htop
  | folder name path children s f => exact mem_nodes_folder.mpr (.inr ⟨top, htop, hm⟩)

@[simp] theorem partsOf_path_leaf (file : FileResult) :
    partsOf (leaf file).path = partsOf file.path :=
  partsOf_intercalate fun _ => isPart_of_mem_partsOf

namespace Settled

variable {node : TreeNode}

theorem names (h : node.Settled) :
    (node.children.map name).Nodup ∧ ∀ c ∈ node.children, IsPart c.name := by
  refine ⟨?_, fun c hc => (h.placed node (mem_nodes_self _) c hc).isPart⟩
  exact List.pairwise_map.mpr ((Grown.all_iff.mp h.grown).2.imp fun hab => hab.symm)

theorem order (h : node.Settled) : ∃ folders leaves, node.children = folders ++ leaves ∧
    (∀ c ∈ folders, c.isFolder = true) ∧ (∀ c ∈ leaves, c.isFolder = false) ∧
    (folders.map name).Pairwise (· < ·) ∧ (leaves.map name).Pairwise (· < ·) := by
  have hordered := h.ordered node (mem_nodes_self _)
  have hnames := (Grown.all_iff.mp h.grown).2
  refine ⟨_, _, folders_before_files hordered, ?_, ?_, ?_, ?_⟩
  · exact fun c hc => (List.mem_filter.mp hc).2
  · exact fun c hc => by simpa using (List.mem_filter.mp hc).2
  · simpa using names_ascending hordered hnames true
  · simpa using names_ascending hordered hnames false

theorem counts (h : node.Settled) (hfolder : node.isFolder = true) :
    node.successCount = (node.children.map successCount).sum ∧
      node.failedCount = (node.children.map failedCount).sum := by
  cases node with
  | file name path success failed => cases hfolder
  | folder name path children s f =>
    obtain ⟨hs, hf, hchildren⟩ := h.counted
    exact ⟨hs.trans hchildren.counts.1.symm, hf.trans hchildren.counts.2.symm⟩

end Settled

theorem Grown.exists_leaf {node : TreeNode} (h : node.Grown) :
    ∃ leaf ∈ node.nodes, leaf.isFolder = false := by
  obtain ⟨way, hway⟩ := List.exists_mem_of_ne_nil _ h.ways_ne_nil
  have hmem : leafOf way ∈ node.nodes.filter (!·.isFolder) :=
    filter_nodes node ▸ List.mem_map_of_mem hway
  exact ⟨leafOf way, (List.mem_filter.mp hmem).1, rfl⟩

/-- **A tree over files is well formed**, whatever the files are. -/
theorem ofFiles_wellFormed (files : List FileResult) : (ofFiles files).WellFormed files := by
  obtain ⟨hparts, hapart⟩ := kept_fits files
  rw [ofFiles_kept]
  have hsettled := ofFiles_settled hparts hapart
  have hleaves := (ofFiles_represents hparts hapart).fileNodes
  have hnode : ∀ node ∈ (ofFiles (kept files)).nodes, node.Settled := fun _ =>
    of_mem_nodes (fun _ h _ => h.of_mem_children) hsettled
  have hleaf : ∀ file ∈ kept files, leaf file ∈ (ofFiles (kept files)).nodes := fun file hfile =>
    (List.mem_filter.mp (hleaves.mem_iff.mpr (List.mem_map_of_mem hfile))).1
  have hplaced := hsettled.placed
  refine ⟨fun node h => (hnode node h).names, fun node h => (hnode node h).order, ?_, ?_,
    fun node h => (hnode node h).counts, ?_, ?_, ?_⟩
  · intro top htop
    exact (hplaced _ (mem_nodes_self _) top htop).path_eq
  · intro top htop node hm c hc
    have hbelow : ∀ m ∈ top.nodes, m ∈ (ofFiles (kept files)).nodes := fun m hm =>
      mem_nodes_of_mem_children htop hm
    -- below the root a folder has a path of its own
    have hne : node.path ≠ "" := by
      rcases mem_nodes_cases hm with rfl | ⟨parent, hparent, hchild⟩
      · exact (hplaced _ (mem_nodes_self _) node htop).path_ne
      · exact (hplaced parent (hbelow parent hparent) node hchild).path_ne
    rw [(hplaced node (hbelow node hm) c hc).path_eq, childPath, if_neg hne]
  · intro top htop node hm
    have hgrown : top.Grown := (Grown.all_iff.mp hsettled.grown).1 top htop
    exact (of_mem_nodes (fun _ h _ => h.of_mem_children) hgrown hm).exists_leaf
  · intro node hm hfile
    have hmem : node ∈ (ofFiles (kept files)).nodes.filter (!·.isFolder) :=
      List.mem_filter.mpr ⟨hm, by rw [hfile]; rfl⟩
    obtain ⟨file, hkept, rfl⟩ := List.mem_map.mp (hleaves.mem_iff.mp hmem)
    refine ⟨rfl, file, ?_, rfl, rfl, rfl⟩
    rw [partsOf_path_leaf]
    exact find?_of_mem_kept hkept
  · intro file hfile hne
    obtain ⟨other, hother, hway⟩ := exists_mem_kept hfile hne
    exact ⟨leaf other, hleaf other hother, rfl, by rwa [partsOf_path_leaf]⟩

end MemoHints.TreeNode
