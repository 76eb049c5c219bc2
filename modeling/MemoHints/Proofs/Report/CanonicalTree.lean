import Mathlib.Data.List.Perm.Basic
import MemoHints.Proofs.Report.Tree

/-!
# The tree of a report is one form of its files

The files below a tree, its sums, the order in its folders and the names that paths are made of
leave no freedom: two trees that agree on the files are the same tree (`Settled.eq_of_ways`).  So a
tree over files does not show the order in which they were found.

## Nodes and ways

`TreeNode.ways` lists what is in a tree and `TreeNode.nodes` what it is made of.  The file nodes are
the ends of the ways (`filter_nodes_ofAll`), every node is reached by the names in its path
(`exists_descend`), and below a folder lie the ways that go on from its names (`ways_below`).

## Why names are asked to differ

Two nodes of one name in a folder would hide each other from `TreeNode.child?`, and their order
would be that of their files.  `TreeNode.Grown` excludes them.
-/

namespace MemoHints

namespace Text

/-- A piece between marks holds none. -/
theorem not_of_mem_splitWhere {α : Type} {p : α → Bool} {l piece : List α}
    (h : piece ∈ splitWhere p l) : ∀ c ∈ piece, ¬ p c = true := by
  induction l generalizing piece with
  | nil =>
    obtain rfl := List.mem_singleton.mp h
    exact fun _ hc => nomatch hc
  | cons d rest ih =>
    obtain ⟨s, more, hrest⟩ := List.exists_cons_of_ne_nil (splitWhere_ne_nil p rest)
    simp only [hrest, List.mem_cons, forall_eq_or_imp] at ih
    obtain ⟨hs, hmore⟩ := ih
    simp only [splitWhere, hrest] at h
    by_cases hd : p d = true
    · simp only [hd, if_true, List.mem_cons] at h
      rcases h with rfl | rfl | h
      · exact fun _ hc => nomatch hc
      · exact hs
      · exact hmore _ h
    · simp only [hd, if_false, List.mem_cons, Bool.false_eq_true] at h
      rcases h with rfl | h
      · exact List.forall_mem_cons.mpr ⟨hd, hs⟩
      · exact hmore _ h

end Text

namespace TreeNode

/-- Paths fall into parts. -/
theorem isPart_of_mem_partsOf {path name : String} (h : name ∈ partsOf path) : IsPart name := by
  obtain ⟨piece, hpiece, rfl⟩ := List.mem_map.mp h
  obtain ⟨hsplit, hne⟩ := List.mem_filter.mp hpiece
  constructor
  · simpa using hne
  · intro hslash
    rw [String.toList_ofList] at hslash
    exact Text.not_of_mem_splitWhere hsplit _ hslash (decide_eq_true rfl)

/-- What holds of files, and of a folder whose members it holds of, holds of every node. -/
@[elab_as_elim]
theorem memberInduction {motive : TreeNode → Prop}
    (file : ∀ name path success failed, motive (.file name path success failed))
    (folder : ∀ name path children s f, (∀ c ∈ children, motive c) →
      motive (.folder name path children s f)) : ∀ node, motive node
  | .file name path success failed => file name path success failed
  | .folder name path children s f =>
    folder name path children s f fun c _ => memberInduction file folder c

/-- A node and all that lies below it. -/
def nodes : TreeNode → List TreeNode
  | .folder name path children s f => .folder name path children s f :: ofAll children
  | .file name path success failed => [.file name path success failed]
where
  ofAll : List TreeNode → List TreeNode
    | [] => []
    | node :: rest => node.nodes ++ ofAll rest

theorem mem_nodes_ofAll {l : List TreeNode} {m : TreeNode} :
    m ∈ nodes.ofAll l ↔ ∃ c ∈ l, m ∈ c.nodes := by
  induction l with
  | nil => simp [nodes.ofAll]
  | cons node l ih => simp [nodes.ofAll, ih]

theorem mem_nodes_folder {name path : String} {children : List TreeNode} {s f : Nat}
    {m : TreeNode} : m ∈ (folder name path children s f).nodes ↔
      m = .folder name path children s f ∨ ∃ c ∈ children, m ∈ c.nodes := by
  rw [nodes, List.mem_cons, mem_nodes_ofAll]

/-- What every child has from its folder, every node below has. -/
theorem of_mem_nodes {p : TreeNode → Prop} (hchild : ∀ node, p node → ∀ c ∈ node.children, p c)
    {node m : TreeNode} (h : p node) (hm : m ∈ node.nodes) : p m := by
  induction node using memberInduction with
  | file name path success failed => rwa [List.mem_singleton.mp hm]
  | folder name path children s f ih =>
    rcases mem_nodes_folder.mp hm with rfl | ⟨c, hc, hm⟩
    · exact h
    · exact ih c hc (hchild _ h c hc) hm

/-- The node that names lead to. -/
def descend (node : TreeNode) (names : List String) : Option TreeNode := names.foldlM child? node

theorem descend_cons (node : TreeNode) (name : String) (names : List String) :
    node.descend (name :: names) = (node.child? name).bind (·.descend names) := by
  rw [descend, List.foldlM_cons]
  rfl

/-! ## Order in a folder -/

/-- Folders stand before files, and nodes of one kind by name. -/
theorem precedes_iff {a b : TreeNode} : precedes a b = true ↔
    (a.isFolder = true ∧ b.isFolder = false) ∨ (a.isFolder = b.isFolder ∧ a.name ≤ b.name) := by
  have hname : (!decide (b.name < a.name)) = true ↔ a.name ≤ b.name := by
    rw [Bool.not_eq_true', decide_eq_false_iff_not, String.not_lt]
  unfold precedes
  cases a.isFolder <;> cases b.isFolder <;>
    simp only [hname, reduceCtorEq, true_and, false_and, and_self, and_true, and_false, or_false,
      false_or]

theorem precedes_total (a b : TreeNode) : (precedes a b || precedes b a) = true := by
  rw [Bool.or_eq_true, precedes_iff, precedes_iff]
  cases ha : a.isFolder <;> cases hb : b.isFolder
  case false.true => exact .inr (.inl ⟨rfl, rfl⟩)
  case true.false => exact .inl (.inl ⟨rfl, rfl⟩)
  all_goals exact (String.le_total a.name b.name).imp (.inr ⟨rfl, ·⟩) (.inr ⟨rfl, ·⟩)

theorem precedes_trans (a b c : TreeNode) (hab : precedes a b = true) (hbc : precedes b c = true) :
    precedes a c = true := by
  rw [precedes_iff] at *
  rcases hab with ⟨ha, hb⟩ | ⟨hkind, hab⟩
  · rcases hbc with ⟨hb', -⟩ | ⟨hkind', -⟩
    · exact absurd (hb'.symm.trans hb) (by decide)
    · exact .inl ⟨ha, hkind'.symm.trans hb⟩
  · rcases hbc with ⟨hb, hc⟩ | ⟨hkind', hbc⟩
    · exact .inl ⟨hkind.trans hb, hc⟩
    · exact .inr ⟨hkind.trans hkind', String.le_trans hab hbc⟩

/-- Only nodes of one name may stand either way round. -/
theorem name_eq_of_precedes {a b : TreeNode} (hab : precedes a b = true)
    (hba : precedes b a = true) : a.name = b.name := by
  rw [precedes_iff] at *
  rcases hab with ⟨ha, hb⟩ | ⟨hkind, hab⟩
  · rcases hba with ⟨hb', -⟩ | ⟨hkind, -⟩
    · exact absurd (hb'.symm.trans hb) (by decide)
    · exact absurd (hb.symm.trans (hkind.trans ha)) (by decide)
  · rcases hba with ⟨hb, ha⟩ | ⟨-, hba⟩
    · exact absurd (ha.symm.trans (hkind.trans hb)) (by decide)
    · exact String.le_antisymm hab hba

/-! ## Sums and order do not move nodes -/

theorem settleAll_eq (l : List TreeNode) : settle.settleAll l = l.map settle := by
  induction l with
  | nil => rfl
  | cons node l ih => simp only [settle.settleAll, ih, List.map_cons]

@[simp] theorem settle_name (node : TreeNode) : (settle node).name = node.name := by
  cases node <;> rfl

@[simp] theorem settle_path (node : TreeNode) : (settle node).path = node.path := by
  cases node <;> rfl

theorem children_settle (node : TreeNode) :
    (settle node).children = (node.children.map settle).mergeSort precedes := by
  cases node with
  | file name path success failed => simp [settle, children]
  | folder name path members s f => simp only [settle, children, settleAll_eq]

theorem mem_children_settle {node c : TreeNode} :
    c ∈ (settle node).children ↔ ∃ n ∈ node.children, settle n = c := by
  rw [children_settle, List.mem_mergeSort, List.mem_map]

theorem exists_of_mem_nodes_settle {node m : TreeNode} (h : m ∈ (settle node).nodes) :
    ∃ n ∈ node.nodes, m = settle n := by
  induction node using memberInduction with
  | file name path success failed => exact ⟨_, List.mem_singleton_self _, List.mem_singleton.mp h⟩
  | folder name path children s f ih =>
    rcases mem_nodes_folder.mp h with rfl | ⟨c, hc, hm⟩
    · exact ⟨_, mem_nodes_folder.mpr (.inl rfl), rfl⟩
    · rw [List.mem_mergeSort, settleAll_eq, List.mem_map] at hc
      obtain ⟨n, hn, rfl⟩ := hc
      obtain ⟨k, hk, rfl⟩ := ih n hn hm
      exact ⟨k, mem_nodes_folder.mpr (.inr ⟨n, hn, hk⟩), rfl⟩

theorem Grown.all_iff {l : List TreeNode} :
    Grown.all l ↔ (∀ m ∈ l, m.Grown) ∧ l.Pairwise fun a b => b.name ≠ a.name := by
  induction l with
  | nil => simp [Grown.all]
  | cons node l ih =>
    simp only [Grown.all, ih, List.forall_mem_cons, List.pairwise_cons]
    tauto

theorem Grown.all.nodup {l : List TreeNode} (h : Grown.all l) : l.Nodup :=
  (Grown.all_iff.mp h).2.imp fun hab hsame => hab (congrArg name hsame).symm

theorem Grown.all_settle {l : List TreeNode} (hsettle : ∀ c ∈ l, c.Grown → (settle c).Grown)
    (h : Grown.all l) : Grown.all ((l.map settle).mergeSort precedes) := by
  obtain ⟨hgrown, hnames⟩ := Grown.all_iff.mp h
  refine Grown.all_iff.mpr ⟨?_, ?_⟩
  · intro m hm
    obtain ⟨c, hc, rfl⟩ := List.mem_map.mp (List.mem_mergeSort.mp hm)
    exact hsettle c hc (hgrown c hc)
  · refine ((List.mergeSort_perm _ _).pairwise_iff fun hab hba => hab hba.symm).mpr ?_
    exact List.pairwise_map.mpr (hnames.imp fun hab => by simpa using hab)

theorem settle_grown {node : TreeNode} (h : node.Grown) : (settle node).Grown := by
  induction node using memberInduction with
  | file name path success failed => trivial
  | folder name path children s f ih =>
    obtain ⟨hne, hall⟩ := h
    refine ⟨?_, ?_⟩
    · rw [Ne, ← List.length_eq_zero_iff, List.length_mergeSort, settleAll_eq, List.length_map,
        List.length_eq_zero_iff]
      exact hne
    · rw [settleAll_eq]
      exact Grown.all_settle (fun c hc => ih c hc) hall

/-! ## Paths are made of names -/

/-- A node in the folder at a path. -/
structure PlacedIn (path : String) (node : TreeNode) : Prop where
  isPart : IsPart node.name
  path_eq : node.path = childPath path node.name

/-- Every node below a node has the path that its name and its folder make. -/
def Placed (node : TreeNode) : Prop := ∀ m ∈ node.nodes, ∀ c ∈ m.children, c.PlacedIn m.path

theorem placed_folder_iff {name path : String} {children : List TreeNode} {s f : Nat} :
    (folder name path children s f).Placed ↔ ∀ c ∈ children, c.PlacedIn path ∧ c.Placed := by
  simp only [Placed, mem_nodes_folder]
  constructor
  · intro h c hc
    exact ⟨h _ (.inl rfl) c hc, fun m hm => h m (.inr ⟨c, hc, hm⟩)⟩
  · rintro h m (rfl | ⟨c, hc, hm⟩)
    · exact fun c hc => (h c hc).1
    · exact (h c hc).2 m hm

theorem placed_file (name path : String) (success failed : List DiagnosticEvent) :
    (file name path success failed).Placed := by
  intro m hm
  obtain rfl := List.mem_singleton.mp hm
  exact fun _ hc => nomatch hc

theorem insert_placed {result : FileResult} {path : String} {parts : List String}
    {l : List TreeNode} (hparts : ∀ part ∈ parts, IsPart part)
    (h : ∀ c ∈ l, c.PlacedIn path ∧ c.Placed) :
    ∀ c ∈ insert result path parts l, c.PlacedIn path ∧ c.Placed := by
  induction parts generalizing path l with
  | nil =>
    rw [TreeNode.insert]
    exact h
  | cons part rest ih =>
    obtain ⟨hpart, hrest⟩ := List.forall_mem_cons.mp hparts
    intro c hc
    cases hany : l.any (·.name = part) with
    | false =>
      rw [insert_of_not_any hany] at hc
      rcases List.mem_append.mp hc with hc | hc
      · exact h c hc
      · obtain rfl := List.mem_singleton.mp hc
        cases rest with
        | nil => exact ⟨⟨hpart, rfl⟩, placed_file _ _ _ _⟩
        | cons next rest =>
          refine ⟨⟨hpart, rfl⟩, placed_folder_iff.mpr ?_⟩
          exact ih hrest (List.forall_mem_nil _)
    | true =>
      rw [TreeNode.insert.eq_def] at hc
      simp only [hany, if_true, List.mem_map] at hc
      obtain ⟨node, hnode, rfl⟩ := hc
      obtain ⟨hin, hplaced⟩ := h node hnode
      cases node with
      | file name p success failed => exact ⟨hin, hplaced⟩
      | folder name p children s f =>
        dsimp only
        split
        next hname =>
          subst hname
          refine ⟨⟨hin.isPart, hin.path_eq⟩, placed_folder_iff.mpr ?_⟩
          obtain rfl : p = childPath path name := hin.path_eq
          exact ih hrest (placed_folder_iff.mp hplaced)
        next => exact ⟨hin, hplaced⟩

theorem insertAll_placed (files : List FileResult) :
    ∀ c ∈ insertAll files, c.PlacedIn "" ∧ c.Placed := by
  induction files using List.reverseRecOn with
  | nil => exact List.forall_mem_nil _
  | append_singleton files file ih =>
    simp only [insertAll, List.foldl_append, List.foldl_cons, List.foldl_nil]
    exact insert_placed (fun _ => isPart_of_mem_partsOf) ih

theorem settle_placed {node : TreeNode} (h : node.Placed) : (settle node).Placed := by
  intro m hm c hc
  obtain ⟨n, hn, rfl⟩ := exists_of_mem_nodes_settle hm
  obtain ⟨k, hk, rfl⟩ := mem_children_settle.mp hc
  obtain ⟨hpart, hpath⟩ := h n hn k hk
  exact ⟨by simpa using hpart, by simpa using hpath⟩

/-! ## What leads to a node, and what lies below it -/

theorem head?_of_mem_ways {node : TreeNode} {way : List String × FileResult}
    (h : way ∈ node.ways) : way.1.head? = some node.name := by
  cases node with
  | file name path success failed => rw [List.mem_singleton.mp h]; rfl
  | folder name path children s f =>
    obtain ⟨below, -, rfl⟩ := List.mem_map.mp h
    rfl

theorem ne_nil_of_mem_ways_ofAll {l : List TreeNode} {way : List String × FileResult}
    (h : way ∈ ways.ofAll l) : way.1 ≠ [] := by
  obtain ⟨node, -, hway⟩ := mem_ways_ofAll.mp h
  intro hnil
  simpa [hnil] using head?_of_mem_ways hway

/-- The ways through a folder do not end at it. -/
theorem tail_ne_nil_of_mem_ways {name path : String} {children : List TreeNode} {s f : Nat}
    {way : List String × FileResult} (h : way ∈ (folder name path children s f).ways) :
    way.1.tail ≠ [] := by
  obtain ⟨below, hbelow, rfl⟩ := List.mem_map.mp h
  exact ne_nil_of_mem_ways_ofAll hbelow

/-- Folders with the same ways have members of the same names. -/
theorem exists_name_of_ways_perm {l l' : List TreeNode} (hl : ∀ c ∈ l, c.Grown)
    (h : (ways.ofAll l).Perm (ways.ofAll l')) {c : TreeNode} (hc : c ∈ l) :
    ∃ c' ∈ l', c.name = c'.name := by
  obtain ⟨way, hway⟩ := List.exists_mem_of_ne_nil _ (hl c hc).ways_ne_nil
  obtain ⟨c', hc', hway'⟩ := mem_ways_ofAll.mp (h.subset (mem_ways_ofAll.mpr ⟨c, hc, hway⟩))
  exact ⟨c', hc', Option.some.inj ((head?_of_mem_ways hway).symm.trans (head?_of_mem_ways hway'))⟩

/-- Of the ways in a folder, those that start with the name of a member are its own. -/
theorem filter_ways_head {l : List TreeNode} (h : Grown.all l) {c : TreeNode} (hc : c ∈ l) :
    (ways.ofAll l).filter (·.1.head? = some c.name) = c.ways := by
  obtain ⟨before, after, rfl⟩ := List.append_of_mem hc
  obtain ⟨-, ⟨-, hafter, -⟩, hbefore⟩ := Grown.all_append.mp h
  have hother : ∀ l' : List TreeNode, (∀ m ∈ l', m.name ≠ c.name) →
      (ways.ofAll l').filter (·.1.head? = some c.name) = [] := by
    intro l' hl'
    refine List.filter_eq_nil_iff.mpr fun way hway hhead => ?_
    obtain ⟨m, hm, hway⟩ := mem_ways_ofAll.mp hway
    have hname : some m.name = some c.name :=
      (head?_of_mem_ways hway).symm.trans (of_decide_eq_true hhead)
    exact hl' m hm (Option.some.inj hname)
  have hown : c.ways.filter (·.1.head? = some c.name) = c.ways :=
    List.filter_eq_self.mpr fun way hway => decide_eq_true (head?_of_mem_ways hway)
  rw [ways_ofAll_append, ways.ofAll, List.filter_append, List.filter_append, hown,
    hother after hafter,
    hother before fun m hm hsame => hbefore m hm c List.mem_cons_self hsame.symm]
  simp

theorem child?_of_mem {node c : TreeNode} (h : Grown.all node.children) (hc : c ∈ node.children) :
    node.child? c.name = some c := by
  unfold child?
  obtain ⟨before, after, hchildren⟩ := List.append_of_mem hc
  rw [hchildren] at h ⊢
  obtain ⟨-, -, hbefore⟩ := Grown.all_append.mp h
  refine List.find?_eq_some_iff_append.mpr ⟨decide_eq_true rfl, before, after, rfl, ?_⟩
  intro m hm
  have hne : m.name ≠ c.name := fun hsame => hbefore m hm c List.mem_cons_self hsame.symm
  simpa using hne

theorem mem_of_child? {node c : TreeNode} {name : String} (h : node.child? name = some c) :
    c ∈ node.children ∧ c.name = name :=
  ⟨List.mem_of_find?_eq_some h, by simpa using List.find?_some h⟩

theorem Grown.all_children {node : TreeNode} (h : node.Grown) : Grown.all node.children := by
  cases node with
  | file name path success failed => trivial
  | folder name path children s f => exact h.2

/-- Every node is reached by names, of which its path is made. -/
theorem exists_descend {node m : TreeNode} (hgrown : Grown.all node.children)
    (hplaced : node.Placed) (h : m ∈ node.nodes) : ∃ names, node.descend names = some m ∧
      (∀ name ∈ names, IsPart name) ∧ m.path = names.foldl childPath node.path := by
  induction node using memberInduction with
  | file name path success failed =>
    obtain rfl := List.mem_singleton.mp h
    exact ⟨[], rfl, List.forall_mem_nil _, rfl⟩
  | folder name path members s f ih =>
    rcases mem_nodes_folder.mp h with rfl | ⟨c, hc, hm⟩
    · exact ⟨[], rfl, List.forall_mem_nil _, rfl⟩
    · obtain ⟨hin, hbelow⟩ := placed_folder_iff.mp hplaced c hc
      obtain ⟨names, hdescend, hparts, hpath⟩ :=
        ih c hc ((Grown.all_iff.mp hgrown).1 c hc).all_children hbelow hm
      refine ⟨c.name :: names, ?_, List.forall_mem_cons.mpr ⟨hin.isPart, hparts⟩, ?_⟩
      · rw [descend_cons, child?_of_mem hgrown hc]
        exact hdescend
      · rw [List.foldl_cons, hpath, hin.path_eq]
        rfl

/-- Below the folder that names lead to lie the ways that go on from them. -/
theorem ways_below {node m : TreeNode} {names : List String} (hgrown : Grown.all node.children)
    (h : node.descend names = some m) (hm : m.isFolder = true) :
    (ways.ofAll node.children).filter (names <+: ·.1) =
      (ways.ofAll m.children).map fun way => (names ++ way.1, way.2) := by
  induction names generalizing node with
  | nil =>
    obtain rfl : node = m := Option.some.inj h
    simp
  | cons name names ih =>
    rw [descend_cons] at h
    obtain ⟨c, hchild, hdescend⟩ := Option.bind_eq_some_iff.mp h
    obtain ⟨hc, rfl⟩ := mem_of_child? hchild
    have hhead : ∀ way : List String × FileResult,
        (c.name :: names) <+: way.1 → way.1.head? = some c.name := by
      rintro way ⟨rest, hway⟩
      rw [← hway]
      rfl
    have hfilter : (ways.ofAll node.children).filter ((c.name :: names) <+: ·.1) =
        c.ways.filter ((c.name :: names) <+: ·.1) := by
      rw [← filter_ways_head hgrown hc, List.filter_filter]
      refine List.filter_congr fun way _ => ?_
      rw [Bool.eq_iff_iff]
      simpa using hhead way
    have hall := ((Grown.all_iff.mp hgrown).1 c hc).all_children
    cases c with
    | file n p success failed =>
      -- nothing lies below a file
      cases names with
      | nil =>
        obtain rfl := Option.some.inj hdescend
        cases hm
      | cons next names => cases hdescend
    | folder n p members s f =>
      have hbelow := ih hall hdescend
      rw [hfilter, ways, List.filter_map]
      simp only [Function.comp_def, name, List.cons_prefix_cons, true_and]
      simp only [children] at hbelow
      rw [hbelow, List.map_map]
      rfl

/-- The end of a way. -/
def leafOf (way : List String × FileResult) : TreeNode :=
  .file (way.1.getLastD "") way.2.path way.2.success way.2.failed

theorem filter_nodes_ofAll {l : List TreeNode}
    (h : ∀ c ∈ l, c.nodes.filter (!·.isFolder) = c.ways.map leafOf) :
    (nodes.ofAll l).filter (!·.isFolder) = (ways.ofAll l).map leafOf := by
  induction l with
  | nil => rfl
  | cons node l ih =>
    obtain ⟨hnode, hrest⟩ := List.forall_mem_cons.mp h
    rw [nodes.ofAll, ways.ofAll, List.filter_append, List.map_append, hnode, ih hrest]

/-- The file nodes of a tree are the ends of its ways. -/
theorem filter_nodes (node : TreeNode) :
    node.nodes.filter (!·.isFolder) = node.ways.map leafOf := by
  induction node using memberInduction with
  | file name path success failed => rfl
  | folder name path children s f ih =>
    have hlast : ∀ way ∈ ways.ofAll children, leafOf (name :: way.1, way.2) = leafOf way := by
      intro way hway
      obtain ⟨first, rest, hfirst⟩ := List.exists_cons_of_ne_nil (ne_nil_of_mem_ways_ofAll hway)
      simp [leafOf, hfirst]
    rw [nodes, ways, List.filter_cons_of_neg (by simp [isFolder]), filter_nodes_ofAll ih,
      List.map_map]
    exact (List.map_congr_left hlast).symm

/-! ## One tree for the same files -/

/-- A tree with nothing left to do: names, sums, paths and order are as they should be. -/
structure Settled (node : TreeNode) : Prop where
  grown : Grown.all node.children
  counted : node.Counted
  placed : node.Placed
  ordered : ∀ m ∈ node.nodes, m.children.Pairwise (precedes · ·)

theorem ordered_of_mem_nodes_settle {node m : TreeNode} (h : m ∈ (settle node).nodes) :
    m.children.Pairwise (precedes · ·) := by
  obtain ⟨n, -, rfl⟩ := exists_of_mem_nodes_settle h
  rw [children_settle]
  exact List.pairwise_mergeSort precedes_trans precedes_total _

theorem mem_nodes_self (node : TreeNode) : node ∈ node.nodes := by
  cases node with
  | file name path success failed => exact List.mem_singleton_self _
  | folder name path children s f => exact List.mem_cons_self

namespace Settled

variable {name path name' path' : String} {children children' : List TreeNode} {s f s' f' : Nat}

theorem of_mem (h : (folder name path children s f).Settled) {c : TreeNode} (hc : c ∈ children) :
    c.Settled where
  grown := ((Grown.all_iff.mp h.grown).1 c hc).all_children
  counted := counted_all_iff.mp h.counted.2.2 c hc
  placed := (placed_folder_iff.mp h.placed c hc).2
  ordered m hm := h.ordered m (mem_nodes_folder.mpr (.inr ⟨c, hc, hm⟩))

/-- A folder is determined by its ways, if its members are. -/
theorem folder_eq (h : (folder name path children s f).Settled)
    (h' : (folder name path children' s' f').Settled)
    (hways : (ways.ofAll children).Perm (ways.ofAll children'))
    (hmember : ∀ c ∈ children, ∀ c', c.Settled → c'.Settled → c.path = c'.path →
      c.ways.Perm c'.ways → c.Grown → c'.Grown → c = c') :
    folder name path children s f = folder name path children' s' f' := by
  have hall : Grown.all children := h.grown
  have hall' : Grown.all children' := h'.grown
  have hgrown := (Grown.all_iff.mp hall).1
  have hgrown' := (Grown.all_iff.mp hall').1
  -- members of one name are equal
  have heq : ∀ c ∈ children, ∀ c' ∈ children', c.name = c'.name → c = c' := by
    intro c hc c' hc' hname
    have hperm := hways.filter (·.1.head? = some c.name)
    rw [filter_ways_head hall hc, hname, filter_ways_head hall' hc'] at hperm
    have hpath : c.path = c'.path := by
      rw [(placed_folder_iff.mp h.placed c hc).1.path_eq,
        (placed_folder_iff.mp h'.placed c' hc').1.path_eq, hname]
    exact hmember c hc c' (h.of_mem hc) (h'.of_mem hc') hpath hperm (hgrown c hc) (hgrown' c' hc')
  -- and each name of one folder is a name of the other
  have hperm : children.Perm children' := by
    refine (List.perm_ext_iff_of_nodup hall.nodup hall'.nodup).mpr fun c => ⟨?_, ?_⟩
    · intro hc
      obtain ⟨c', hc', hname⟩ := exists_name_of_ways_perm hgrown hways hc
      exact heq c hc c' hc' hname ▸ hc'
    · intro hc
      obtain ⟨c', hc', hname⟩ := exists_name_of_ways_perm hgrown' hways.symm hc
      exact heq c' hc' c hc hname.symm ▸ hc'
  obtain rfl : children = children' := by
    refine hperm.eq_of_pairwise (fun a b ha hb hab hba => ?_)
      (h.ordered _ (mem_nodes_self _)) (h'.ordered _ (mem_nodes_self _))
    exact heq a ha b hb (name_eq_of_precedes hab hba)
  obtain ⟨hs, hf, -⟩ := h.counted
  obtain ⟨hs', hf', -⟩ := h'.counted
  rw [hs, hf, hs', hf']

/-- A node is determined by its ways. -/
theorem eq_of_ways {node node' : TreeNode} (h : node.Settled) (h' : node'.Settled)
    (hpath : node.path = node'.path) (hways : node.ways.Perm node'.ways) (hgrown : node.Grown)
    (hgrown' : node'.Grown) : node = node' := by
  induction node using memberInduction generalizing node' with
  | file name path success failed =>
    cases node' with
    | file name' path' success' failed' =>
      have hsingle := List.singleton_perm_singleton.mp hways
      simp only [Prod.mk.injEq, List.cons.injEq, and_true, FileResult.mk.injEq] at hsingle
      obtain ⟨rfl, rfl, rfl, rfl⟩ := hsingle
      rfl
    | folder name' path' children' s' f' =>
      exact absurd rfl (tail_ne_nil_of_mem_ways (hways.subset List.mem_cons_self))
  | folder name path children s f ih =>
    obtain ⟨way, hway⟩ := List.exists_mem_of_ne_nil _ hgrown.ways_ne_nil
    have hname : name = node'.name := Option.some.inj
      ((head?_of_mem_ways hway).symm.trans (head?_of_mem_ways (hways.subset hway)))
    cases node' with
    | file name' path' success' failed' =>
      have htail := tail_ne_nil_of_mem_ways hway
      rw [List.mem_singleton.mp (hways.subset hway)] at htail
      exact absurd rfl htail
    | folder name' path' children' s' f' =>
      obtain rfl : name = name' := hname
      obtain rfl : path = path' := hpath
      have hinjective : Function.Injective
          fun way : List String × FileResult => (name :: way.1, way.2) := by
        rintro ⟨a, x⟩ ⟨b, y⟩ hab
        simpa using hab
      exact folder_eq h h' ((List.map_perm_map_iff hinjective).mp hways)
        fun c hc _ hsettled hsettled' => ih c hc hsettled hsettled'

end Settled

/-! ## The tree over files -/

/-- Whether a file lies at a path or below it. -/
def liesUnder (path : String) (file : FileResult) : Bool := partsOf path <+: partsOf file.path

/-- The node of a file. -/
def leaf (file : FileResult) : TreeNode :=
  .file ((partsOf file.path).getLastD "") ("/".intercalate (partsOf file.path)) file.success
    file.failed

/-- A tree that holds files and nothing else, with their sums. -/
structure Represents (tree : TreeNode) (files : List FileResult) : Prop where
  /-- The parts of the path of a file lead to a node with its events. -/
  descend_file : ∀ file ∈ files, tree.descend (partsOf file.path) = some (leaf file)
  /-- There is one file node for each file and no other. -/
  fileNodes : (tree.nodes.filter (!·.isFolder)).Perm (files.map leaf)
  /-- Every node stands at its path. -/
  descend_node : ∀ node ∈ tree.nodes, tree.descend (partsOf node.path) = some node
  /-- A folder carries the sums over the files below its path. -/
  counts : ∀ node ∈ tree.nodes, node.isFolder = true →
    node.successCount = ((files.filter (liesUnder node.path)).map (·.success.length)).sum ∧
      node.failedCount = ((files.filter (liesUnder node.path)).map (·.failed.length)).sum
  totals : tree.successCount = (files.map (·.success.length)).sum ∧
    tree.failedCount = (files.map (·.failed.length)).sum

section OfFiles

variable {files : List FileResult}

theorem ofFiles_settled (hparts : ∀ file ∈ files, partsOf file.path ≠ [])
    (hapart : files.Pairwise fun a b => Apart (partsOf a.path) (partsOf b.path)) :
    (ofFiles files).Settled where
  grown := by
    rw [ofFiles, children_settle]
    exact Grown.all_settle (fun c _ => settle_grown) (insertAll_ways hparts hapart).1
  counted := settle_counted _
  placed := settle_placed (placed_folder_iff.mpr (insertAll_placed files))
  ordered _ := ordered_of_mem_nodes_settle

/-- The ways of the tree are those of the files. -/
theorem ways_ofFiles (hparts : ∀ file ∈ files, partsOf file.path ≠ [])
    (hapart : files.Pairwise fun a b => Apart (partsOf a.path) (partsOf b.path)) :
    (ways.ofAll (ofFiles files).children).Perm (files.map fun file =>
      (partsOf file.path, { file with path := "/".intercalate (partsOf file.path) })) := by
  refine (ofFiles_children_ways files).trans ((insertAll_ways hparts hapart).2.trans (.of_eq ?_))
  refine List.map_congr_left fun file _ => ?_
  rw [placed, foldl_childPath fun _ => isPart_of_mem_partsOf]

/-- Going down the names in its path leads to a node. -/
theorem descend_of_mem_nodes {tree node : TreeNode} (h : tree.Settled) (hpath : tree.path = "")
    (hnode : node ∈ tree.nodes) : tree.descend (partsOf node.path) = some node := by
  obtain ⟨names, hdescend, hnames, hnode⟩ := exists_descend h.grown h.placed hnode
  rw [hnode, hpath, foldl_childPath hnames, partsOf_intercalate hnames]
  exact hdescend

theorem Counted.of_mem_children {node c : TreeNode} (h : node.Counted) (hc : c ∈ node.children) :
    c.Counted := by
  cases node with
  | file name path success failed => cases hc
  | folder name path children s f => exact counted_all_iff.mp h.2.2 c hc

/-- What a folder of the tree carries of one kind of events. -/
theorem eventCount_below {tree node : TreeNode} (h : tree.Settled) (hpath : tree.path = "")
    (hways : (ways.ofAll tree.children).Perm (files.map fun file =>
      (partsOf file.path, { file with path := "/".intercalate (partsOf file.path) })))
    (hnode : node ∈ tree.nodes) (hfolder : node.isFolder = true)
    (events : FileResult → List DiagnosticEvent)
    (hevents : ∀ (file : FileResult) path, events { file with path } = events file) :
    eventCount events (ways.ofAll node.children) =
      ((files.filter (liesUnder node.path)).map fun file => (events file).length).sum := by
  have hbelow := ways_below h.grown (descend_of_mem_nodes h hpath hnode) hfolder
  calc eventCount events (ways.ofAll node.children)
    _ = eventCount events ((ways.ofAll tree.children).filter (partsOf node.path <+: ·.1)) := by
      rw [hbelow, eventCount, eventCount, List.map_map]
      rfl
    _ = eventCount events ((files.map fun file => (partsOf file.path,
          { file with path := "/".intercalate (partsOf file.path) })).filter
            (partsOf node.path <+: ·.1)) :=
      eventCount_perm (hways.filter _)
    _ = _ := by
      rw [List.filter_map, eventCount, List.map_map]
      simp only [Function.comp_def, hevents]
      rfl

theorem ofFiles_represents (hparts : ∀ file ∈ files, partsOf file.path ≠ [])
    (hapart : files.Pairwise fun a b => Apart (partsOf a.path) (partsOf b.path)) :
    (ofFiles files).Represents files := by
  have hsettled := ofFiles_settled hparts hapart
  have hways := ways_ofFiles hparts hapart
  have hleaves : ((ofFiles files).nodes.filter (!·.isFolder)).Perm (files.map leaf) := by
    have hnodes : (ofFiles files).nodes.filter (!·.isFolder) =
        (ways.ofAll (ofFiles files).children).map leafOf :=
      filter_nodes_ofAll fun c _ => filter_nodes c
    rw [hnodes]
    refine (hways.map leafOf).trans (.of_eq ?_)
    rw [List.map_map]
    rfl
  have hcounts : ∀ node ∈ (ofFiles files).nodes, node.isFolder = true →
      node.successCount = ((files.filter (liesUnder node.path)).map (·.success.length)).sum ∧
        node.failedCount = ((files.filter (liesUnder node.path)).map (·.failed.length)).sum := by
    intro node hnode hfolder
    have hsuccess := eventCount_below hsettled rfl hways hnode hfolder (·.success) fun _ _ => rfl
    have hfailed := eventCount_below hsettled rfl hways hnode hfolder (·.failed) fun _ _ => rfl
    have hcounted := of_mem_nodes (fun _ h _ => h.of_mem_children) hsettled.counted hnode
    cases node with
    | file name path success failed => cases hfolder
    | folder name path children s f =>
      exact ⟨hcounted.1.trans hsuccess, hcounted.2.1.trans hfailed⟩
  refine ⟨?_, hleaves, fun _ => descend_of_mem_nodes hsettled rfl, hcounts, ?_⟩
  · intro file hfile
    have hmem : leaf file ∈ (ofFiles files).nodes :=
      (List.mem_filter.mp (hleaves.mem_iff.mpr (List.mem_map_of_mem hfile))).1
    have hdescend := descend_of_mem_nodes hsettled rfl hmem
    rwa [leaf, path, partsOf_intercalate fun _ => isPart_of_mem_partsOf] at hdescend
  · -- all files lie below the root
    have hall : files.filter (liesUnder "") = files :=
      List.filter_eq_self.mpr fun file _ => decide_eq_true List.nil_prefix
    have hroot := hcounts (ofFiles files) (mem_nodes_self _) rfl
    rwa [show (ofFiles files).path = "" from rfl, hall] at hroot

/-- Files that were found in another order make the same tree. -/
theorem ofFiles_perm {files' : List FileResult} (hparts : ∀ file ∈ files, partsOf file.path ≠ [])
    (hapart : files.Pairwise fun a b => Apart (partsOf a.path) (partsOf b.path))
    (h : files'.Perm files) : ofFiles files' = ofFiles files := by
  have hparts' : ∀ file ∈ files', partsOf file.path ≠ [] := fun file hfile =>
    hparts file (h.mem_iff.mp hfile)
  have hapart' : files'.Pairwise fun a b => Apart (partsOf a.path) (partsOf b.path) :=
    (h.pairwise_iff fun hab => hab.symm).mpr hapart
  have hways : (ways.ofAll (ofFiles files').children).Perm (ways.ofAll (ofFiles files).children) :=
    (ways_ofFiles hparts' hapart').trans ((h.map _).trans (ways_ofFiles hparts hapart).symm)
  exact Settled.folder_eq (ofFiles_settled hparts' hapart') (ofFiles_settled hparts hapart) hways
    fun _ _ _ hc hc' => hc.eq_of_ways hc'

/-- **A tree over files loses nothing and forgets their order.**  The files may be any whose paths
have parts and lie apart. -/
theorem ofFiles_canonical (hparts : ∀ file ∈ files, partsOf file.path ≠ [])
    (hapart : files.Pairwise fun a b => Apart (partsOf a.path) (partsOf b.path)) :
    (ofFiles files).Represents files ∧
      ∀ files', files'.Perm files → ofFiles files' = ofFiles files :=
  ⟨ofFiles_represents hparts hapart, fun _ => ofFiles_perm hparts hapart⟩

theorem sharing_folder_represented :
    let deep : FileResult := ⟨"a/b/c.tsx", [{}, {}], [{}]⟩
    let shallow : FileResult := ⟨"a//d.tsx", [], [{}, {}, {}]⟩
    (ofFiles [deep, shallow]).descend ["a", "d.tsx"] =
        some (.file "d.tsx" "a/d.tsx" [] [{}, {}, {}]) ∧
      (ofFiles [deep, shallow]).failedCount = 4 ∧
      ofFiles [shallow, deep] = ofFiles [deep, shallow] := by
  intro deep shallow
  have hdeep : partsOf deep.path = ["a", "b", "c.tsx"] := by decide
  have hshallow : partsOf shallow.path = ["a", "d.tsx"] := by decide
  have hparts : ∀ file ∈ [deep, shallow], partsOf file.path ≠ [] := by simp [hdeep, hshallow]
  have hapart : [deep, shallow].Pairwise fun a b => Apart (partsOf a.path) (partsOf b.path) := by
    simp [hdeep, hshallow, Apart]
  obtain ⟨htree, horder⟩ := ofFiles_canonical hparts hapart
  refine ⟨?_, htree.totals.2, horder _ (.swap _ _ _)⟩
  have hdescend := htree.descend_file shallow (by simp)
  rw [leaf, hshallow] at hdescend
  exact hdescend

end OfFiles

end TreeNode

end MemoHints
