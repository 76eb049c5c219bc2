import Mathlib.Data.List.Induction
import MemoHints.Proofs.Report.Walk
import MemoHints.Report.Tree

/-!
# The tree of a report holds its files

A tree is read as the list of its files, each with the names down to it (`TreeNode.ways`).  Files
that lie apart do not get into each other's way: each one put into the tree adds itself to that list
(`added_insert`), sorting permutes the list, and the sums at a folder are sums over it.

## What may be lost

A name that is taken by a file ends the way of a file below it, and a name that is taken by a folder
that of a file with this name.  Neither happens for the files of a walk, which is why files are
asked to lie `Apart`.
-/

namespace MemoHints

namespace TreeNode

/-- The files of a node: the names down to each from the node on, and its events. -/
def ways : TreeNode → List (List String × FileResult)
  | .folder name _ children _ _ => (ofAll children).map fun way => (name :: way.1, way.2)
  | .file name path success failed => [([name], ⟨path, success, failed⟩)]
where
  ofAll : List TreeNode → List (List String × FileResult)
    | [] => []
    | node :: rest => node.ways ++ ofAll rest

/-- A node as files make it: no folder is empty, and the names in a folder are different. -/
def Grown : TreeNode → Prop
  | .folder _ _ children _ _ => children ≠ [] ∧ all children
  | .file .. => True
where
  all : List TreeNode → Prop
    | [] => True
    | node :: rest => node.Grown ∧ (∀ m ∈ rest, m.name ≠ node.name) ∧ all rest

theorem ways_ofAll_eq (nodes : List TreeNode) : ways.ofAll nodes = nodes.flatMap ways := by
  induction nodes with
  | nil => rfl
  | cons node nodes ih => simp only [List.flatMap_cons, ways.ofAll, ih]

theorem ways_ofAll_append (nodes nodes' : List TreeNode) :
    ways.ofAll (nodes ++ nodes') = ways.ofAll nodes ++ ways.ofAll nodes' := by
  simp only [ways_ofAll_eq, List.flatMap_append]

theorem mem_ways_ofAll {nodes : List TreeNode} {way : List String × FileResult} :
    way ∈ ways.ofAll nodes ↔ ∃ node ∈ nodes, way ∈ node.ways := by
  rw [ways_ofAll_eq, List.mem_flatMap]

/-- There is a file in every node that files made. -/
theorem Grown.ways_ne_nil : ∀ {node : TreeNode}, node.Grown → node.ways ≠ []
  | .file .., _ => by simp [ways]
  | .folder _ _ [] _ _, h => absurd rfl h.1
  | .folder _ _ (node :: rest) _ _, h => by
    obtain ⟨-, hnode, -⟩ := h
    have hne := hnode.ways_ne_nil
    simp [ways, ways.ofAll, hne]

theorem Grown.all_append {nodes nodes' : List TreeNode} :
    Grown.all (nodes ++ nodes') ↔ Grown.all nodes ∧ Grown.all nodes' ∧
      ∀ m ∈ nodes, ∀ m' ∈ nodes', m'.name ≠ m.name := by
  induction nodes with
  | nil => simp [Grown.all]
  | cons node nodes ih =>
    simp only [List.cons_append, Grown.all, ih, List.mem_append, List.mem_cons, forall_eq_or_imp]
    constructor
    · rintro ⟨hnode, hdistinct, hnodes, hnodes', hapart⟩
      exact ⟨⟨hnode, fun m hm => hdistinct m (.inl hm), hnodes⟩, hnodes',
        fun m' hm' => hdistinct m' (.inr hm'), hapart⟩
    · rintro ⟨⟨hnode, hdistinct, hnodes⟩, hnodes', hfirst, hapart⟩
      refine ⟨hnode, ?_, hnodes, hnodes', hapart⟩
      rintro m (hm | hm)
      · exact hdistinct m hm
      · exact hfirst m hm

/-! ## Putting a file into nodes -/

/-- The file as it stands below a path. -/
def placed (result : FileResult) (path : String) (parts : List String) : FileResult :=
  { result with path := parts.foldl childPath path }

/-- What a file does to nodes that it lies apart from: it adds itself to them, and nothing else. -/
structure Added (result : FileResult) (path : String) (parts : List String)
    (nodes nodes' : List TreeNode) : Prop where
  grown : Grown.all nodes'
  ways : (ways.ofAll nodes').Perm ((parts, placed result path parts) :: ways.ofAll nodes)

theorem Added.ne_nil {result : FileResult} {path : String} {parts : List String}
    {nodes nodes' : List TreeNode} (h : Added result path parts nodes nodes') : nodes' ≠ [] := by
  rintro rfl
  have hlength := h.ways.length_eq
  simp [ways.ofAll] at hlength

theorem insert_of_not_any {result : FileResult} {path part : String} {rest : List String}
    {nodes : List TreeNode} (h : nodes.any (·.name = part) = false) :
    insert result path (part :: rest) nodes = nodes ++ [match rest with
      | [] => .file part (childPath path part) result.success result.failed
      | rest => .folder part (childPath path part)
          (insert result (childPath path part) rest []) 0 0] := by
  rw [TreeNode.insert.eq_def]
  simp only [h]
  cases rest <;> rfl

/-- Into the folder of its first name, if there is one. -/
theorem insert_of_folder {result : FileResult} {path part p : String} {rest : List String}
    {children before after : List TreeNode} {s f : Nat} (hbefore : ∀ m ∈ before, m.name ≠ part)
    (hafter : ∀ m ∈ after, m.name ≠ part) :
    insert result path (part :: rest) (before ++ .folder part p children s f :: after) =
      before ++
        .folder part p (insert result (childPath path part) rest children) s f :: after := by
  rw [TreeNode.insert.eq_def]
  have hany : (before ++ folder part p children s f :: after).any (·.name = part) = true := by
    simp [name]
  simp only [hany, if_true, List.map_append, List.map_cons]
  congr 1
  · refine (List.map_congr_left fun m hm => ?_).trans (List.map_id' before)
    cases m with
    | folder name p children s f => exact if_neg (hbefore _ hm)
    | file name path success failed => rfl
  · congr 1
    refine (List.map_congr_left fun m hm => ?_).trans (List.map_id' after)
    cases m with
    | folder name p children s f => exact if_neg (hafter _ hm)
    | file name path success failed => rfl

section Adding

variable {result : FileResult} {path : String} {rest : List String}

/-- A new node with this file alone, after nodes with other names. -/
theorem added_append {part : String} {nodes : List TreeNode} (hgrown : Grown.all nodes)
    (hother : ∀ m ∈ nodes, part ≠ m.name) {new : TreeNode} (hname : new.name = part)
    (hnew : new.Grown)
    (hways : new.ways.Perm [(part :: rest, placed result path (part :: rest))]) :
    Added result path (part :: rest) nodes (nodes ++ [new]) := by
  constructor
  · refine Grown.all_append.mpr ⟨hgrown, ⟨hnew, List.forall_mem_nil _, trivial⟩, ?_⟩
    intro m hm m' hm'
    obtain rfl := List.mem_singleton.mp hm'
    rw [hname]
    exact hother m hm
  · have hsingle : ways.ofAll [new] = new.ways := List.append_nil _
    rw [ways_ofAll_append, hsingle]
    exact (hways.append_left _).trans (List.perm_append_singleton _ _)

/-- What is added to a folder is added to the nodes around it. -/
theorem added_folder {name p : String} {before after children children' : List TreeNode} {s f : Nat}
    (hgrown : Grown.all (before ++ folder name p children s f :: after))
    (h : Added result (childPath path name) rest children children') :
    Added result path (name :: rest) (before ++ folder name p children s f :: after)
      (before ++ folder name p children' s f :: after) := by
  constructor
  · obtain ⟨hbefore, ⟨-, hdistinct, hafter⟩, hapart⟩ := Grown.all_append.mp hgrown
    refine Grown.all_append.mpr ⟨hbefore, ⟨⟨h.ne_nil, h.grown⟩, hdistinct, hafter⟩, ?_⟩
    intro m hm m' hm'
    -- the folder keeps its name
    rcases List.mem_cons.mp hm' with rfl | hm'
    · exact hapart m hm (folder name p children s f) List.mem_cons_self
    · exact hapart m hm m' (List.mem_cons_of_mem _ hm')
  · simp only [ways_ofAll_append, ways.ofAll, ways]
    have hchildren := h.ways.map fun way => (name :: way.1, way.2)
    exact ((hchildren.append_right _).append_left _).trans List.perm_middle

/-- A file is added at its names, in the folders that are there and in new ones. -/
theorem added_insert {parts : List String} {nodes : List TreeNode} (hparts : parts ≠ [])
    (hgrown : Grown.all nodes) (hapart : ∀ way ∈ ways.ofAll nodes, Apart way.1 parts) :
    Added result path parts nodes (insert result path parts nodes) := by
  induction parts generalizing path nodes with
  | nil => exact absurd rfl hparts
  | cons part rest ih =>
    cases hany : nodes.any (·.name = part) with
    | false =>
      have hother : ∀ m ∈ nodes, part ≠ m.name := by
        intro m hm hname
        rw [List.any_eq_false] at hany
        exact hany m hm (by simp [hname])
      rw [insert_of_not_any hany]
      cases rest with
      | nil => exact added_append hgrown hother rfl trivial (.refl _)
      | cons next rest =>
        have hadded : Added result (childPath path part) (next :: rest) [] _ :=
          ih (List.cons_ne_nil _ _) trivial (fun _ hway => nomatch hway)
        exact added_append hgrown hother rfl ⟨hadded.ne_nil, hadded.grown⟩ (hadded.ways.map _)
    | true =>
      obtain ⟨node, hnode, hname⟩ := List.any_eq_true.mp hany
      have hname : node.name = part := by simpa using hname
      obtain ⟨before, after, rfl⟩ := List.append_of_mem hnode
      obtain ⟨-, ⟨hthis, hafter, -⟩, hbefore⟩ := Grown.all_append.mp hgrown
      cases node with
      | file name p success failed =>
        -- the way would go on from a file
        obtain rfl : name = part := hname
        have hway := hapart ([name], ⟨p, success, failed⟩)
          (mem_ways_ofAll.mpr ⟨_, hnode, List.mem_singleton_self _⟩)
        exact absurd List.nil_prefix (apart_cons.mp hway).1
      | folder name p children s f =>
        obtain rfl : name = part := hname
        have hbelow : ∀ way ∈ ways.ofAll children, Apart way.1 rest := by
          intro way hway
          have hmem : (name :: way.1, way.2) ∈ (folder name p children s f).ways :=
            List.mem_map_of_mem hway
          exact apart_cons.mp (hapart _ (mem_ways_ofAll.mpr ⟨_, hnode, hmem⟩))
        have hrest : rest ≠ [] := by
          -- there is a file in the folder, and it would go on from this one
          rintro rfl
          obtain ⟨way, hway⟩ := List.exists_mem_of_ne_nil _ hthis.ways_ne_nil
          obtain ⟨below, hmem, -⟩ := List.mem_map.mp hway
          exact absurd List.nil_prefix (hbelow below hmem).2
        have hnames : ∀ m ∈ before, m.name ≠ name := fun m hm hsame =>
          hbefore m hm _ List.mem_cons_self hsame.symm
        rw [insert_of_folder hnames hafter]
        exact added_folder hgrown (ih hrest hthis.2 hbelow)

end Adding

/-- Files that lie apart are put into a tree one beside the other. -/
theorem insertAll_ways {files : List FileResult} (hparts : ∀ file ∈ files, partsOf file.path ≠ [])
    (hapart : files.Pairwise fun a b => Apart (partsOf a.path) (partsOf b.path)) :
    Grown.all (insertAll files) ∧ (ways.ofAll (insertAll files)).Perm
      (files.map fun file => (partsOf file.path, placed file "" (partsOf file.path))) := by
  -- the last file is put into the tree of those before it
  induction files using List.reverseRecOn with
  | nil => exact ⟨trivial, .refl _⟩
  | append_singleton files file ih =>
    obtain ⟨hbefore, -, hlast⟩ := List.pairwise_append.mp hapart
    obtain ⟨hgrown, hways⟩ := ih (fun a ha => hparts a (List.mem_append_left _ ha)) hbefore
    have hfile : ∀ way ∈ ways.ofAll (insertAll files), Apart way.1 (partsOf file.path) := by
      intro way hway
      obtain ⟨a, ha, rfl⟩ := List.mem_map.mp (hways.subset hway)
      exact hlast a ha file (List.mem_singleton_self _)
    have hadded : Added file "" (partsOf file.path) (insertAll files) _ := added_insert
      (hparts file (List.mem_append_right _ (List.mem_singleton_self _))) hgrown hfile
    have hinsert : insertAll (files ++ [file]) =
        insert file "" (partsOf file.path) (insertAll files) := by
      simp only [insertAll, List.foldl_append, List.foldl_cons, List.foldl_nil]
    rw [hinsert, List.map_append]
    exact ⟨hadded.grown, (hadded.ways.trans (hways.cons _)).trans
      (List.perm_append_singleton _ _).symm⟩

/-! ## Sums and order -/

/-- The events of one kind in files. -/
def eventCount (events : FileResult → List DiagnosticEvent)
    (found : List (List String × FileResult)) : Nat :=
  (found.map fun way => (events way.2).length).sum

/-- Every folder, at any depth, carries the sums of the files below it. -/
def Counted : TreeNode → Prop
  | .folder _ _ children s f =>
    s = eventCount (·.success) (ways.ofAll children) ∧
      f = eventCount (·.failed) (ways.ofAll children) ∧ all children
  | .file .. => True
where
  all : List TreeNode → Prop
    | [] => True
    | node :: rest => node.Counted ∧ all rest

theorem eventCount_perm {events : FileResult → List DiagnosticEvent}
    {found found' : List (List String × FileResult)} (h : found.Perm found') :
    eventCount events found = eventCount events found' :=
  (h.map _).sum_nat

theorem counted_all_iff {nodes : List TreeNode} :
    Counted.all nodes ↔ ∀ node ∈ nodes, node.Counted := by
  induction nodes with
  | nil => simp [Counted.all]
  | cons node nodes ih => simp [Counted.all, ih]

/-- What a node carries is the sum of its own files. -/
theorem Counted.counts {node : TreeNode} (h : node.Counted) :
    node.successCount = eventCount (·.success) node.ways ∧
      node.failedCount = eventCount (·.failed) node.ways := by
  cases node with
  | folder name path children s f =>
    obtain ⟨hs, hf, -⟩ := h
    simpa [eventCount, ways, successCount, failedCount, Function.comp_def] using ⟨hs, hf⟩
  | file name path success failed => simp [eventCount, ways, successCount, failedCount]

theorem Counted.all.counts {nodes : List TreeNode} (h : Counted.all nodes) :
    (nodes.map successCount).sum = eventCount (·.success) (ways.ofAll nodes) ∧
      (nodes.map failedCount).sum = eventCount (·.failed) (ways.ofAll nodes) := by
  induction nodes with
  | nil => exact ⟨rfl, rfl⟩
  | cons node nodes ih =>
    obtain ⟨hs, hf⟩ := h.1.counts
    obtain ⟨hsrest, hfrest⟩ := ih h.2
    simp [ways.ofAll, eventCount] at *
    omega

theorem ways_ofAll_perm {nodes nodes' : List TreeNode} (h : nodes.Perm nodes') :
    (ways.ofAll nodes).Perm (ways.ofAll nodes') := by
  rw [ways_ofAll_eq, ways_ofAll_eq]
  exact h.flatMap_right ways

mutual

/-- Sorting and summing keep the files. -/
theorem settle_ways : ∀ node : TreeNode, (settle node).ways.Perm node.ways
  | .folder _ _ children _ _ =>
    ((ways_ofAll_perm (List.mergeSort_perm _ _)).trans (settleAll_ways children)).map _
  | .file .. => .refl _

theorem settleAll_ways : ∀ nodes : List TreeNode,
    (ways.ofAll (settle.settleAll nodes)).Perm (ways.ofAll nodes)
  | [] => .refl _
  | node :: rest => (settle_ways node).append (settleAll_ways rest)

end

mutual

theorem settle_counted : ∀ node : TreeNode, (settle node).Counted
  | .folder _ _ children _ _ => by
    have hchildren := settleAll_counted children
    have hperm := List.mergeSort_perm (settle.settleAll children) precedes
    obtain ⟨hs, hf⟩ := hchildren.counts
    refine ⟨?_, ?_, ?_⟩
    · rw [hs]
      exact eventCount_perm (ways_ofAll_perm hperm).symm
    · rw [hf]
      exact eventCount_perm (ways_ofAll_perm hperm).symm
    · exact counted_all_iff.mpr fun node hnode =>
        counted_all_iff.mp hchildren node (hperm.mem_iff.mp hnode)
  | .file .. => trivial

theorem settleAll_counted : ∀ nodes : List TreeNode, Counted.all (settle.settleAll nodes)
  | [] => trivial
  | node :: rest => ⟨settle_counted node, settleAll_counted rest⟩

end

theorem ofFiles_children_ways (files : List FileResult) :
    (ways.ofAll (ofFiles files).children).Perm (ways.ofAll (insertAll files)) :=
  (ways_ofAll_perm (List.mergeSort_perm _ _)).trans (settleAll_ways _)

/-! ## Paths -/

/-- A text that is one part of a path. -/
def IsPart (name : String) : Prop := name ≠ "" ∧ '/' ∉ name.toList

/-- A path falls into the parts that it was joined of. -/
theorem partsOf_intercalate {names : List String} (h : ∀ name ∈ names, IsPart name) :
    partsOf ("/".intercalate names) = names := by
  cases names with
  | nil => rfl
  | cons first names =>
    have hsplit : Text.splitWhere (· = '/') ("/".intercalate (first :: names)).toList =
        (first :: names).map String.toList := by
      induction names generalizing first with
      | nil =>
        rw [String.intercalate_singleton]
        exact Text.splitWhere_of_forall_not fun c hc hslash =>
          (h first List.mem_cons_self).2 (of_decide_eq_true hslash ▸ hc)
      | cons next names ih =>
        have hfirst : ∀ c ∈ first.toList, ¬ decide (c = '/') = true := fun c hc hslash =>
          (h first List.mem_cons_self).2 (of_decide_eq_true hslash ▸ hc)
        have hcons : ("/".intercalate (first :: next :: names)).toList =
            first.toList ++ '/' :: ("/".intercalate (next :: names)).toList := by
          rw [String.intercalate_cons_cons]
          simp
        rw [hcons, Text.splitWhere_append_cons (p := (· = '/')) (decide_eq_true rfl),
          Text.splitWhere_of_forall_not hfirst,
          ih next fun name hname => h name (List.mem_cons_of_mem _ hname)]
        rfl
    have hkeep : ((first :: names).map String.toList).filter (· ≠ []) =
        (first :: names).map String.toList := by
      refine List.filter_eq_self.mpr fun l hl => ?_
      obtain ⟨name, hname, rfl⟩ := List.mem_map.mp hl
      simpa using (h name hname).1
    rw [partsOf, hsplit, hkeep, List.map_map]
    simp [Function.comp_def]

/-- Going down by names joins them. -/
theorem foldl_childPath {names : List String} (h : ∀ name ∈ names, IsPart name) :
    names.foldl childPath "" = "/".intercalate names := by
  cases names with
  | nil => rfl
  | cons first names =>
    have hfold : ∀ path, path ≠ "" →
        names.foldl childPath path = "/".intercalate (path :: names) := by
      clear h
      intro path hpath
      induction names generalizing path with
      | nil => simp
      | cons next names ih =>
        rw [List.foldl_cons, ih _ (by simp [childPath, hpath]), childPath, if_neg hpath,
          String.intercalate_cons_cons]
        cases names <;> simp [String.intercalate_cons_cons, String.append_assoc]
    exact hfold first (h first List.mem_cons_self).1

/-- **The tree over files holds these files.**  They are files that lie apart, at joined paths. -/
theorem ofFiles_ways {files : List FileResult} {namesOf : FileResult → List String}
    (hpath : ∀ file ∈ files, file.path = "/".intercalate (namesOf file))
    (hnames : ∀ file ∈ files, namesOf file ≠ [] ∧ ∀ name ∈ namesOf file, IsPart name)
    (hapart : files.Pairwise fun a b => Apart (namesOf a) (namesOf b)) :
    (ways.ofAll (ofFiles files).children).Perm (files.map fun file => (namesOf file, file)) := by
  have hparts : ∀ file ∈ files, partsOf file.path = namesOf file := fun file hfile => by
    rw [hpath file hfile, partsOf_intercalate (hnames file hfile).2]
  have hplaced : ∀ file ∈ files, placed file "" (namesOf file) = file := fun file hfile => by
    rw [placed, foldl_childPath (hnames file hfile).2, ← hpath file hfile]
  obtain ⟨-, hways⟩ := insertAll_ways (fun file hfile => hparts file hfile ▸ (hnames file hfile).1)
    (hapart.imp_of_mem fun ha hb hab => by rwa [hparts _ ha, hparts _ hb])
  refine (ofFiles_children_ways files).trans (hways.trans (.of_eq ?_))
  refine List.map_congr_left fun file hfile => ?_
  rw [hparts file hfile, hplaced file hfile]

/-- The root carries the sums over all files. -/
theorem ofFiles_counts {files : List FileResult} {namesOf : FileResult → List String}
    (h : (ways.ofAll (ofFiles files).children).Perm (files.map fun file => (namesOf file, file))) :
    (ofFiles files).successCount = (files.map (·.success.length)).sum ∧
      (ofFiles files).failedCount = (files.map (·.failed.length)).sum := by
  have hcounted : (ofFiles files).Counted := settle_counted _
  have hsum : ∀ events : FileResult → List DiagnosticEvent,
      eventCount events (ways.ofAll (ofFiles files).children) =
        (files.map fun file => (events file).length).sum := by
    intro events
    rw [eventCount_perm h, eventCount, List.map_map]
    rfl
  exact ⟨hcounted.1.trans (hsum _), hcounted.2.1.trans (hsum _)⟩

end TreeNode

end MemoHints
