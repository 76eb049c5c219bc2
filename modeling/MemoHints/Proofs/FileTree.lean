import MemoHints.FileTree.Basic
import MemoHints.Proofs.Entries

/-!
# Going one name deeper

A folder that lies at a path, and an entry in it: then the entry lies at the path joined with its
name, and the parts of that path are the parts of the folder's path and the name.  This is all that
a walk over a tree needs to know about paths.

Both halves rest on one fact about texts, `FilePath.join_name`: whether a path ends with a slash or
not, joining a name gives some text, a slash and the name, and the path itself is that text with at
most a slash after it.
-/

namespace MemoHints

namespace Text

variable {α : Type} {p : α → Bool}

theorem splitWhere_ne_nil (p : α → Bool) (l : List α) : splitWhere p l ≠ [] := by
  cases l with
  | nil => simp [splitWhere]
  | cons c rest =>
    simp only [splitWhere]
    split
    · simp
    · split <;> simp

/-- Without marks there is one piece. -/
theorem splitWhere_of_forall_not {l : List α} (h : ∀ c ∈ l, ¬ p c = true) :
    splitWhere p l = [l] := by
  induction l with
  | nil => rfl
  | cons c rest ih =>
    have hrest := ih fun d hd => h d (List.mem_cons_of_mem _ hd)
    simp [splitWhere, hrest, h c List.mem_cons_self]

/-- The pieces before a mark and those after it. -/
theorem splitWhere_append_cons {c : α} (hc : p c = true) (l r : List α) :
    splitWhere p (l ++ c :: r) = splitWhere p l ++ splitWhere p r := by
  induction l with
  | nil =>
    obtain ⟨s, more, hr⟩ := List.exists_cons_of_ne_nil (splitWhere_ne_nil p r)
    simp [splitWhere, hr, hc]
  | cons d l ih =>
    obtain ⟨s, more, hl⟩ := List.exists_cons_of_ne_nil (splitWhere_ne_nil p l)
    simp only [List.cons_append, splitWhere, ih, hl]
    by_cases hd : p d = true
    · simp [hd]
    · simp [hd]

end Text

/-- A name that stands for itself in a path: it is one segment, and not one of the dot segments. -/
structure Name.IsPlain (name : Name) : Prop where
  ne_nil : name ≠ []
  ne_dot : name ≠ [FilePath.dot]
  ne_dots : name ≠ [FilePath.dot, FilePath.dot]
  slash_not_mem : FilePath.slash ∉ name
  zero_not_mem : 0 ∉ name

instance (name : Name) : Decidable name.IsPlain :=
  decidable_of_iff
    (name ≠ [] ∧ name ≠ [FilePath.dot] ∧ name ≠ [FilePath.dot, FilePath.dot] ∧
      FilePath.slash ∉ name ∧ 0 ∉ name)
    ⟨fun ⟨hnil, hdot, hdots, hslash, hzero⟩ => ⟨hnil, hdot, hdots, hslash, hzero⟩,
      fun ⟨hnil, hdot, hdots, hslash, hzero⟩ => ⟨hnil, hdot, hdots, hslash, hzero⟩⟩

namespace FilePath

variable {name : Name}

theorem not_isAbsolute_of_isPlain (h : name.IsPlain) : FilePath.isAbsolute ⟨name⟩ = false := by
  cases name with
  | nil => rfl
  | cons b rest =>
    have hb : b ≠ slash := fun hb => h.slash_not_mem (hb ▸ List.mem_cons_self)
    simpa [isAbsolute] using hb

theorem not_endsWithSlash_of_isPlain (h : name.IsPlain) (body : List UInt8) :
    FilePath.endsWithSlash ⟨body ++ slash :: name⟩ = false := by
  have hlast : (body ++ slash :: name).getLast? = name.getLast? := by
    obtain ⟨b, hb⟩ := Option.ne_none_iff_exists'.mp (mt List.getLast?_eq_none_iff.mp h.ne_nil)
    simp [List.getLast?_append, List.getLast?_cons, hb]
  cases hb : name.getLast? with
  | none => simp [endsWithSlash, hlast, hb]
  | some b =>
    have hne : b ≠ slash := fun hb' => h.slash_not_mem (hb' ▸ List.mem_of_getLast? hb)
    simpa [endsWithSlash, hlast, hb] using hne

/-- Joining a name puts it after a slash, which the path may already have. -/
theorem join_name {p : FilePath} (hp : p.isEmpty = false) (h : name.IsPlain) :
    ∃ body, (p.join ⟨name⟩).bytes = body ++ slash :: name ∧
      (p.bytes = body ∧ p.endsWithSlash = false ∨
        p.bytes = body ++ [slash] ∧ p.endsWithSlash = true) := by
  cases hslash : p.endsWithSlash with
  | false =>
    refine ⟨p.bytes, ?_, .inl ⟨rfl, rfl⟩⟩
    simp [join, not_isAbsolute_of_isPlain h, hp, hslash]
  | true =>
    have hlast : p.bytes.getLast? = some slash := by simpa [endsWithSlash] using hslash
    obtain ⟨body, hbody⟩ := List.getLast?_eq_some_iff.mp hlast
    refine ⟨body, ?_, .inr ⟨hbody, rfl⟩⟩
    simp [join, not_isAbsolute_of_isPlain h, hp, hslash, hbody]

/-- The segments before a last name. -/
theorem segments_append_name (body : List UInt8) (h : name.IsPlain) :
    segments (body ++ slash :: name) = segments body ++ [name] := by
  have hname : ∀ b ∈ name, ¬ decide (b = slash) = true := by
    intro b hb
    have hne : b ≠ slash := fun hb' => h.slash_not_mem (hb' ▸ hb)
    simpa using hne
  have hsplit := Text.splitWhere_append_cons (p := (· = slash)) (decide_eq_true rfl) body name
  rwa [Text.splitWhere_of_forall_not hname] at hsplit

theorem segments_append_slash (body : List UInt8) :
    segments (body ++ [slash]) = segments body ++ [[]] :=
  Text.splitWhere_append_cons (p := (· = slash)) (decide_eq_true rfl) body []

theorem partOf_of_isPlain (h : name.IsPlain) : partOf name = some (.name name) := by
  simp [partOf, h.ne_nil, h.ne_dot, h.ne_dots]

theorem isAbsolute_join_name {p : FilePath} (hp : p.isEmpty = false) (h : name.IsPlain) :
    (p.join ⟨name⟩).isAbsolute = p.isAbsolute := by
  obtain ⟨body, hjoin, ⟨hbody, -⟩ | ⟨hbody, -⟩⟩ := join_name hp h
  all_goals
    cases body with
    | nil => simp_all [isAbsolute, isEmpty]
    | cons b rest => simp [isAbsolute, hjoin, hbody]

theorem isEmpty_join_name {p : FilePath} (hp : p.isEmpty = false) (h : name.IsPlain) :
    (p.join ⟨name⟩).isEmpty = false := by
  obtain ⟨body, hjoin, -⟩ := join_name hp h
  simp [isEmpty, hjoin]

/-- The parts of a joined path: those of the path and the name. -/
theorem parts_join_name {p : FilePath} (hp : p.isEmpty = false) (h : name.IsPlain) :
    (p.join ⟨name⟩).parts = p.parts ++ [.name name] := by
  obtain ⟨body, hjoin, hbody⟩ := join_name hp h
  have hsegments : (segments (p.join ⟨name⟩).bytes).filterMap partOf =
      (segments p.bytes).filterMap partOf ++ [.name name] := by
    rw [hjoin, segments_append_name body h, List.filterMap_append]
    have hname : [name].filterMap partOf = [.name name] := by
      rw [List.filterMap_cons_some (partOf_of_isPlain h), List.filterMap_nil]
    rcases hbody with ⟨hbody, -⟩ | ⟨hbody, -⟩
    · rw [hbody, hname]
    · rw [hbody, hname, segments_append_slash, List.filterMap_append]
      simp [partOf]
  unfold parts
  rw [hsegments, isAbsolute_join_name hp h]
  generalize (segments p.bytes).filterMap partOf = found
  by_cases hroot : p.isAbsolute = true
  · simp [hroot]
  · rcases found with _ | ⟨first, rest⟩
    · simp [hroot]
    · cases first <;> simp [hroot]

/-- The path that goes on from a folder by names. -/
def below (dir : FilePath) (names : List Name) : FilePath :=
  names.foldl (fun p name => p.join ⟨name⟩) dir

theorem parts_below {dir : FilePath} {names : List Name} (hdir : dir.isEmpty = false)
    (hnames : ∀ name ∈ names, Name.IsPlain name) :
    (dir.below names).parts = dir.parts ++ names.map .name := by
  induction names generalizing dir with
  | nil => simp [below]
  | cons name names ih =>
    have hname := hnames name List.mem_cons_self
    have hrest := ih (isEmpty_join_name hdir hname)
      fun next hnext => hnames next (List.mem_cons_of_mem _ hnext)
    rw [parts_join_name hdir hname, List.append_assoc] at hrest
    exact hrest

/-- Below a folder, the text of a path is that of the names. -/
theorem relativeText_below {dir : FilePath} {names : List Name} (hdir : dir.isEmpty = false)
    (hnames : ∀ name ∈ names, Name.IsPlain name) :
    dir.relativeText (dir.below names) = "/".intercalate (names.map Text.Utf8.decodeLossy) := by
  have hprefix : dir.parts.isPrefixOf (dir.parts ++ names.map .name) = true := by
    simp
  simp only [relativeText, below?, parts_below hdir hnames, hprefix, if_true, Option.getD_some,
    List.drop_left, namesText, List.filterMap_map]
  simp

end FilePath

/-! ## Entries -/

namespace Entry

theorem at?_append (root : Entry) (here names : List Name) :
    root.at? (here ++ names) = (root.at? here).bind (·.at? names) := by
  induction here generalizing root with
  | nil => rfl
  | cons name here ih =>
    simp only [List.cons_append, at?]
    cases root.member? name with
    | none => rfl
    | some e => exact ih e

/-- A tree that a file system can hold, with names that are texts: the names in a folder are plain
and different. -/
def WellNamed : Entry → Prop
  | .folder members => ofMembers members
  | .file _ _ | .link _ => True
where
  ofMembers : List (Name × Entry) → Prop
    | [] => True
    | (name, e) :: rest =>
      Name.IsPlain name ∧ (∃ text, name = Text.Utf8.encode text) ∧ (∀ m ∈ rest, m.1 ≠ name) ∧
        e.WellNamed ∧ ofMembers rest

theorem WellNamed.ofMembers.of_mem {members : List (Name × Entry)}
    (h : WellNamed.ofMembers members) {m : Name × Entry} (hm : m ∈ members) :
    members.lookup m.1 = some m.2 ∧ Name.IsPlain m.1 ∧ (∃ text, m.1 = Text.Utf8.encode text) ∧
      m.2.WellNamed := by
  induction members with
  | nil => cases hm
  | cons first rest ih =>
    obtain ⟨name, e⟩ := first
    obtain ⟨hplain, htext, hdistinct, he, hrest⟩ := h
    rcases List.mem_cons.mp hm with rfl | hm
    · exact ⟨List.lookup_cons_self, hplain, htext, he⟩
    · obtain ⟨hlookup, hm'⟩ := ih hrest hm
      have hne : (m.1 == name) = false := by simpa using hdistinct m hm
      rw [List.lookup_cons, hne]
      exact ⟨hlookup, hm'⟩

theorem WellNamed.at? {root e : Entry} (h : root.WellNamed) {names : List Name}
    (hat : root.at? names = some e) : e.WellNamed := by
  induction names generalizing root with
  | nil =>
    cases hat
    exact h
  | cons name names ih =>
    simp only [Entry.at?] at hat
    cases hmember : root.member? name with
    | none => simp [hmember] at hat
    | some m =>
      simp only [hmember] at hat
      cases root with
      | folder members =>
        obtain ⟨before, after, rfl, -⟩ := List.lookup_eq_some_iff.mp hmember
        exact ih (WellNamed.ofMembers.of_mem h (by simp : (name, m) ∈ _)).2.2.2 hat
      | file content executable => simp [Entry.member?] at hmember
      | link target => simp [Entry.member?] at hmember

/-- A tree that a file system can hold: in each folder of it the names are plain and different. -/
def Proper (e : Entry) : Prop :=
  ∀ names members, e.at? names = some (.folder members) →
    (members.map Prod.fst).Nodup ∧ ∀ m ∈ members, Name.IsPlain m.1

theorem Proper.at? {root e : Entry} (h : root.Proper) {names : List Name}
    (hat : root.at? names = some e) : e.Proper := by
  intro below members hbelow
  exact h (names ++ below) members (by rw [at?_append, hat]; exact hbelow)

/-- A folder is proper when its names are plain and different and its members are proper. -/
theorem proper_folder_iff {members : List (Name × Entry)} :
    (folder members).Proper ↔
      (members.map Prod.fst).Nodup ∧ ∀ m ∈ members, Name.IsPlain m.1 ∧ m.2.Proper := by
  constructor
  · intro h
    obtain ⟨hdistinct, hplain⟩ := h [] members rfl
    refine ⟨hdistinct, fun m hm => ⟨hplain m hm, ?_⟩⟩
    have hlookup : members.lookup m.1 = some m.2 := (lookup_eq_some_iff_mem hdistinct).mpr hm
    have hat : (folder members).at? [m.1] = some m.2 := by simp [Entry.at?, member?, hlookup]
    exact h.at? hat
  · rintro ⟨hdistinct, hmembers⟩ names below hat
    cases names with
    | nil =>
      cases hat
      exact ⟨hdistinct, fun m hm => (hmembers m hm).1⟩
    | cons name names =>
      simp only [Entry.at?] at hat
      cases hmember : (folder members).member? name with
      | none => simp [hmember] at hat
      | some e =>
        simp only [hmember] at hat
        have hm : (name, e) ∈ members := (lookup_eq_some_iff_mem hdistinct).mp hmember
        exact (hmembers _ hm).2 names below hat

theorem proper_file (content : List UInt8) (executable : Bool) :
    (file content executable).Proper := by
  intro names members hat
  cases names with
  | nil => cases hat
  | cons name names => simp [Entry.at?, member?] at hat

theorem proper_link (target : FilePath) : (link target).Proper := by
  intro names members hat
  cases names with
  | nil => cases hat
  | cons name names => simp [Entry.at?, member?] at hat

theorem WellNamed.proper {e : Entry} (h : e.WellNamed) : e.Proper := by
  intro names members hat
  have hmembers : WellNamed.ofMembers members := h.at? hat
  refine ⟨?_, fun m hm => (hmembers.of_mem hm).2.1⟩
  clear hat
  induction members with
  | nil => exact .nil
  | cons first rest ih =>
    obtain ⟨-, -, hdistinct, -, hrest⟩ := hmembers
    refine List.nodup_cons.mpr ⟨fun hmem => ?_, ih hrest⟩
    obtain ⟨m, hm, hname⟩ := List.mem_map.mp hmem
    exact hdistinct m hm hname

end Entry

namespace FileTree

variable {root : Entry} {here there : List Name} {members : List (Name × Entry)}

/-- A name leads to the entry that has it, unless that is a link. -/
theorem follow_name {last : Bool} {links : Nat} {name : Name} {e : Entry}
    (hfolder : root.at? here = some (.folder members)) (hname : name.IsPlain)
    (hmember : members.lookup name = some e) (hlink : ∀ target, e ≠ .link target)
    (rest : List Name) :
    follow root last links here (name :: rest) = follow root last links (here ++ [name]) rest := by
  rw [follow]
  simp only [hfolder, hname.ne_dot, hname.ne_dots, if_false, hmember]

/-- All that can come of the first of several steps: they lead nowhere, whatever follows them, or
the rest goes on from where they lead. -/
theorem follow_append_cases (root : Entry) (links : Nat) (here steps : List Name) :
    (∃ fault, ∀ rest, follow root true links here (steps ++ rest) = .error fault) ∨
    (∃ left there, ∀ rest, follow root true links here (steps ++ rest) =
      follow root true left there rest) := by
  fun_induction follow root true links here steps with
  | case1 links here => exact .inr ⟨links, here, fun _ => rfl⟩
  | case2 links here rest members hfolder ih =>
    have hstep : ∀ more, follow root true links here ([FilePath.dot] :: rest ++ more) =
        follow root true links here (rest ++ more) := by
      intro more
      rw [List.cons_append, follow]
      simp only [hfolder, if_true]
    simpa only [hstep] using ih
  | case3 links here rest members hfolder hdots ih =>
    have hstep : ∀ more,
        follow root true links here ([FilePath.dot, FilePath.dot] :: rest ++ more) =
          follow root true links here.dropLast (rest ++ more) := by
      intro more
      rw [List.cons_append, follow]
      simp only [hfolder, hdots, if_true, if_false]
    simpa only [hstep] using ih
  | case8 here step rest members hfolder hdot hdots target hmember hlast htarget links ih =>
    have hstep : ∀ more, follow root true (links + 1) here (step :: rest ++ more) =
        follow root true links (if target.isAbsolute then [] else here)
          (FileTree.steps target ++ rest ++ more) := by
      intro more
      rw [List.cons_append, follow]
      simp [hfolder, hdot, hdots, hmember, htarget, List.append_assoc]
    simpa only [hstep, dite_eq_ite] using ih
  | case9 links here step rest members hfolder hdot hdots e hlink hmember ih =>
    have hstep : ∀ more, follow root true links here (step :: rest ++ more) =
        follow root true links (here ++ [step]) (rest ++ more) := by
      intro more
      rw [List.cons_append, follow]
      simp [hfolder, hdot, hdots, hmember]
    simpa only [hstep] using ih
  | case5 _ _ _ _ _ _ _ _ _ _ hlast => simp at hlast
  | case4 links here step rest members hfolder hdot hdots hmember =>
    exact .inl ⟨.notFound, fun more => by simp [follow, hfolder, hdot, hdots, hmember]⟩
  | case6 links here step rest members hfolder hdot hdots target hmember hlast htarget =>
    exact .inl ⟨.notFound, fun more => by simp [follow, hfolder, hdot, hdots, hmember, htarget]⟩
  | case7 here step rest members hfolder hdot hdots target hmember hlast htarget =>
    exact .inl ⟨.tooManyLinks,
      fun more => by simp [follow, hfolder, hdot, hdots, hmember, htarget]⟩
  | case10 links here step rest e hfolder he =>
    exact .inl ⟨.notFolder, fun more => by simp [follow, he]⟩
  | case11 links here step rest he =>
    exact .inl ⟨.notFound, fun more => by simp [follow, he]⟩

/-- Steps into a folder, with or without the one that stays there: the next step starts there. -/
theorem follow_append {links : Nat} {steps front : List Name}
    (h : follow root true links here steps = .ok there)
    (hsteps : steps = front ∨ steps = front ++ [[FilePath.dot]]) :
    ∃ left, ∀ rest, follow root true links here (front ++ rest) =
      follow root true left there rest := by
  rcases follow_append_cases root links here front with ⟨fault, hfault⟩ | ⟨left, mid, hmid⟩
  · rcases hsteps with rfl | rfl
    · have hnone := hfault []
      rw [List.append_nil, h] at hnone
      cases hnone
    · rw [hfault] at h
      cases h
  · rcases hsteps with rfl | rfl
    · have hthere := hmid []
      rw [List.append_nil, h, follow] at hthere
      cases hthere
      exact ⟨left, hmid⟩
    · -- the last step stays where the steps before it led
      have hthere : mid = there := by
        rw [hmid, follow] at h
        split at h
        · simpa [follow] using h
        · cases h
        · cases h
      exact ⟨left, hthere ▸ hmid⟩

/-- The steps of a joined path end with the name; before it stand the steps of the path, but for a
slash at its end. -/
theorem steps_join_name {p : FilePath} {name : Name} (hp : p.isEmpty = false) (h : name.IsPlain) :
    ∃ front, steps (p.join ⟨name⟩) = front ++ [name] ∧
      (steps p = front ∨ steps p = front ++ [[FilePath.dot]]) := by
  obtain ⟨body, hjoin, hbody⟩ := FilePath.join_name hp h
  refine ⟨(FilePath.segments body).filter (· ≠ []), ?_, ?_⟩
  · have hend : (p.join ⟨name⟩).endsWithSlash = false := by
      have := FilePath.not_endsWithSlash_of_isPlain h body
      rwa [← hjoin] at this
    simp [steps, hend, hjoin, FilePath.segments_append_name body h, h.ne_nil]
  · rcases hbody with ⟨hbody, hend⟩ | ⟨hbody, hend⟩
    · exact .inl (by simp [steps, hbody, hend])
    · exact .inr (by simp [steps, hbody, hend, FilePath.segments_append_slash])

theorem locate_eq_ok {tree : FileTree} {last : Bool} {p : FilePath} :
    tree.locate last p = .ok there ↔ p.isEmpty = false ∧ 0 ∉ p.bytes ∧
      follow tree.root last maxLinks (if p.isAbsolute then [] else tree.cwd) (steps p) =
        .ok there := by
  unfold locate
  by_cases hempty : p.isEmpty = true
  · simp [hempty]
  · by_cases hzero : 0 ∈ p.bytes
    · simp [hempty, hzero]
    · simp [hempty, hzero]

theorem locate_join_name {tree : FileTree} {p : FilePath} {name : Name} {e : Entry}
    (h : tree.locate true p = .ok there) (hfolder : tree.root.at? there = some (.folder members))
    (hname : name.IsPlain) (hmember : members.lookup name = some e)
    (hlink : ∀ target, e ≠ .link target) :
    tree.locate true (p.join ⟨name⟩) = .ok (there ++ [name]) := by
  obtain ⟨hp, hzero, hfollow⟩ := locate_eq_ok.mp h
  refine locate_eq_ok.mpr ⟨FilePath.isEmpty_join_name hp hname, ?_, ?_⟩
  · obtain ⟨body, hjoin, hbody⟩ := FilePath.join_name hp hname
    have hbody : 0 ∉ body := by
      rcases hbody with ⟨hbody, -⟩ | ⟨hbody, -⟩
      · rwa [hbody] at hzero
      · rw [hbody] at hzero
        exact fun h => hzero (List.mem_append_left _ h)
    simp [hjoin, hbody, hname.zero_not_mem, FilePath.slash]
  · obtain ⟨front, hjoin, hfront⟩ := steps_join_name hp hname
    obtain ⟨left, hleft⟩ := follow_append hfollow hfront
    rw [hjoin, FilePath.isAbsolute_join_name hp hname, hleft,
      follow_name hfolder hname hmember hlink, follow]

/-- An entry of a folder lies at the folder's path joined with its name. -/
theorem entry_join_name {tree : FileTree} {p : FilePath} {name : Name} {e : Entry}
    (h : tree.entry p = .ok (.folder members)) (hname : name.IsPlain)
    (hmember : members.lookup name = some e) (hlink : ∀ target, e ≠ .link target) :
    tree.entry (p.join ⟨name⟩) = .ok e := by
  unfold entry at h ⊢
  cases hplace : tree.locate true p with
  | error fault => simp [hplace] at h
  | ok there =>
    have hfolder : tree.root.at? there = some (.folder members) := by
      simp only [hplace] at h
      split at h
      · next e he =>
        cases h
        exact he
      · cases h
    have hthere : tree.root.at? (there ++ [name]) = some e := by
      rw [Entry.at?_append, hfolder]
      simp [Entry.at?, Entry.member?, hmember]
    have hjoin := locate_join_name hplace hfolder hname hmember hlink
    simp only [hjoin, hthere]

/-- What a path leads to is somewhere in the tree. -/
theorem exists_at?_of_entry {tree : FileTree} {p : FilePath} {e : Entry}
    (he : tree.entry p = .ok e) : ∃ names, tree.root.at? names = some e := by
  unfold entry at he
  split at he
  · cases he
  · split at he
    · next hat =>
      cases he
      exact ⟨_, hat⟩
    · cases he

theorem entry_wellNamed {tree : FileTree} (h : tree.root.WellNamed) {p : FilePath} {e : Entry}
    (he : tree.entry p = .ok e) : e.WellNamed := by
  obtain ⟨names, hat⟩ := exists_at?_of_entry he
  exact h.at? hat

theorem entry_proper {tree : FileTree} (h : tree.root.Proper) {p : FilePath} {e : Entry}
    (he : tree.entry p = .ok e) : e.Proper := by
  obtain ⟨names, hat⟩ := exists_at?_of_entry he
  exact h.at? hat

theorem isEmpty_of_entry {tree : FileTree} {p : FilePath} {e : Entry} (h : tree.entry p = .ok e) :
    p.isEmpty = false := by
  unfold entry at h
  split at h
  · cases h
  · next hplace => exact (locate_eq_ok.mp hplace).1

/-- Going down a list of names through folders. -/
theorem entry_below {tree : FileTree} {dir : FilePath} {names : List Name} {e e' : Entry}
    (h : tree.entry dir = .ok e) (hnames : ∀ name ∈ names, Name.IsPlain name)
    (hat : e.at? names = some e') (hlink : ∀ target, e' ≠ .link target) :
    tree.entry (dir.below names) = .ok e' := by
  induction names generalizing dir e with
  | nil =>
    cases hat
    exact h
  | cons name names ih =>
    simp only [Entry.at?] at hat
    cases hmember : e.member? name with
    | none => simp [hmember] at hat
    | some m =>
      simp only [hmember] at hat
      cases e with
      | folder members =>
        have hm : ∀ target, m ≠ .link target := by
          rintro target rfl
          cases names with
          | nil => exact hlink target (Option.some.inj hat).symm
          | cons next names => simp [Entry.at?, Entry.member?] at hat
        have hstep := entry_join_name h (hnames name List.mem_cons_self) hmember hm
        exact ih hstep (fun next hnext => hnames next (List.mem_cons_of_mem _ hnext)) hat
      | file content executable => simp [Entry.member?] at hmember
      | link target => simp [Entry.member?] at hmember

/-- A single slash leads to the root. -/
theorem entry_slash {tree : FileTree} (h : tree.root = .folder members) :
    tree.entry ⟨[FilePath.slash]⟩ = .ok (.folder members) := by
  have hroot : tree.locate true ⟨[FilePath.slash]⟩ = .ok [] := by
    refine locate_eq_ok.mpr ⟨rfl, by decide, ?_⟩
    have hsteps : steps ⟨[FilePath.slash]⟩ = [[FilePath.dot]] := by decide
    simp [hsteps, FilePath.isAbsolute, h, follow, Entry.at?]
  simp [entry, hroot, h, Entry.at?]

end FileTree

end MemoHints
