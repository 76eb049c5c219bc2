import MemoHints.Document.Anchor
import MemoHints.Proofs.Text.Search
import MemoHints.Proofs.Text.Utf16

/-!
# Anchors stand behind declarations

The anchor of a line stands behind its first declaration: that of the kind which is listed first,
and of several of this kind the one on the left (`FirstDeclaration`).  A declaration neither starts
nor ends with a blank, so blanks around a line move its anchor and do nothing else to it
(`anchorColumn_behind_declaration`).
-/

namespace MemoHints

open Text (isBlank trimEnd units16 utf16)

theorem upTo_prefix {line needle found : List Char} (h : upTo line needle = some found) :
    found <+: line := by
  obtain ⟨⟨front, back⟩, hparts, rfl⟩ := Option.map_eq_some_iff.mp h
  rw [Text.splitAtFirst_eq_some hparts]
  exact List.prefix_append _ _

/-- Whatever stands before an anchor is whole characters of the line, and no blanks at its end. -/
theorem beforeAnchor_prefix (line : List Char) (fallback : AnchorFallback) :
    beforeAnchor line fallback <+: trimEnd line := by
  unfold beforeAnchor
  dsimp only
  split
  next found hfound =>
    obtain ⟨start, -, hstart⟩ := List.exists_of_findSome?_eq_some hfound
    exact upTo_prefix hstart
  next =>
    cases fallback with
    | lineEnd => exact List.prefix_rfl
    | lineStart => exact List.nil_prefix

theorem units16_le_of_prefix {front line : List Char} (h : front <+: line) :
    units16 front ≤ units16 line := by
  obtain ⟨back, rfl⟩ := h
  rw [Text.units16_append]
  exact Nat.le_add_right _ _

theorem anchorColumn_ofList (line : List Char) (fallback : AnchorFallback) :
    anchorColumn (String.ofList line) fallback = units16 (beforeAnchor line fallback) := by
  rw [anchorColumn, String.toList_ofList]

/-! ## The first declaration of a line -/

/-- Whether a line has a declaration. -/
def Declares (line : List Char) : Prop := ∃ start ∈ declarationStarts, start.toList <:+: line

/-- The first declaration of a line, and what stands in front of it. -/
structure FirstDeclaration (line front : List Char) (start : String) : Prop where
  /-- No kind that is listed before it is on the line. -/
  listed : ∃ earlier later, declarationStarts = earlier ++ start :: later ∧
    ∀ other ∈ earlier, ¬ other.toList <:+: line
  occurs : front ++ start.toList <+: line
  leftmost : ∀ other, other ++ start.toList <+: line → front.length ≤ other.length

/-- No kind of declaration starts or ends with a blank. -/
theorem ends_of_mem_declarationStarts : ∀ start ∈ declarationStarts,
    start.toList ≠ [] ∧ (∀ c ∈ start.toList.head?, ¬ isBlank c = true) ∧
      ∀ c ∈ start.toList.getLast?, ¬ isBlank c = true := by
  simp [declarationStarts, isBlank]

/-- What ends with a declaration starts a line, with the blanks at its end or without them. -/
theorem append_prefix_trimEnd_iff {start : String} (h : start ∈ declarationStarts)
    (line front : List Char) :
    front ++ start.toList <+: trimEnd line ↔ front ++ start.toList <+: line := by
  obtain ⟨hne, -, hlast⟩ := ends_of_mem_declarationStarts start h
  refine Text.prefix_trimEnd_iff ?_ line
  rwa [List.getLast?_append, List.getLast?_eq_some_getLast hne, Option.some_or,
    ← List.getLast?_eq_some_getLast hne]

theorem upTo_trimEnd_eq_none_iff {start : String} (h : start ∈ declarationStarts)
    (line : List Char) : upTo (trimEnd line) start.toList = none ↔ ¬ start.toList <:+: line := by
  obtain ⟨-, -, hlast⟩ := ends_of_mem_declarationStarts start h
  rw [upTo, Option.map_eq_none_iff, ← Option.not_isSome_iff_eq_none, ← Text.contains,
    Text.contains_iff_infix, Text.infix_trimEnd_iff hlast]

theorem exists_firstDeclaration {line : List Char} (h : Declares line) :
    ∃ front start, FirstDeclaration line front start ∧
      ∀ fallback, beforeAnchor line fallback = front ++ start.toList := by
  obtain ⟨known, hknown, hoccurs⟩ := h
  cases hfind : declarationStarts.findSome? fun start => upTo (trimEnd line) start.toList with
  | none =>
    have hmissed := List.findSome?_eq_none_iff.mp hfind known hknown
    exact absurd hoccurs ((upTo_trimEnd_eq_none_iff hknown line).mp hmissed)
  | some found =>
    obtain ⟨earlier, start, later, hlist, hstart, hearlier⟩ := List.findSome?_eq_some_iff.mp hfind
    have hmem : start ∈ declarationStarts := by simp [hlist]
    obtain ⟨⟨front, back⟩, hsplit, rfl⟩ := Option.map_eq_some_iff.mp hstart
    refine ⟨front, start, ⟨⟨earlier, later, hlist, fun other hother => ?_⟩, ?_,
      fun other hother => ?_⟩, fun fallback => ?_⟩
    · have hlisted : other ∈ declarationStarts := by simp [hlist, hother]
      exact (upTo_trimEnd_eq_none_iff hlisted line).mp (hearlier other hother)
    · rw [← append_prefix_trimEnd_iff hmem, Text.splitAtFirst_eq_some hsplit]
      exact List.prefix_append _ _
    · rw [← append_prefix_trimEnd_iff hmem] at hother
      exact Text.splitAtFirst_leftmost hsplit hother
    · simp only [beforeAnchor, hfind]

namespace FirstDeclaration

variable {line front front' : List Char} {start start' : String}

theorem isInfix (h : FirstDeclaration line front start) : start.toList <:+: line :=
  (List.suffix_append front _).isInfix.trans h.occurs.isInfix

theorem mem (h : FirstDeclaration line front start) : start ∈ declarationStarts := by
  obtain ⟨earlier, later, hlist, -⟩ := h.listed
  rw [hlist]
  exact List.mem_append_cons_self

theorem start_eq (h : FirstDeclaration line front start)
    (h' : FirstDeclaration line front' start') : start = start' := by
  obtain ⟨earlier, later, hlist, hnone⟩ := h.listed
  obtain ⟨earlier', later', hlist', hnone'⟩ := h'.listed
  rw [hlist, List.append_eq_append_iff] at hlist'
  rcases hlist' with ⟨between, rfl, hcons⟩ | ⟨between, rfl, hcons⟩
  · cases between with
    | nil => exact (List.cons.inj hcons).1
    | cons other between =>
      obtain ⟨rfl, -⟩ := List.cons.inj hcons
      exact absurd h.isInfix (hnone' _ List.mem_append_cons_self)
  · cases between with
    | nil => exact (List.cons.inj hcons).1.symm
    | cons other between =>
      obtain ⟨rfl, -⟩ := List.cons.inj hcons
      exact absurd h'.isInfix (hnone _ List.mem_append_cons_self)

/-- A line has one first declaration. -/
theorem unique (h : FirstDeclaration line front start)
    (h' : FirstDeclaration line front' start') :
    front ++ start.toList = front' ++ start'.toList := by
  obtain rfl := h.start_eq h'
  have hlength := Nat.le_antisymm (h.leftmost front' h'.occurs) (h'.leftmost front h.occurs)
  have hlengths : (front ++ start.toList).length = (front' ++ start.toList).length := by
    rw [List.length_append, List.length_append, hlength]
  have hprefix :=
    List.prefix_of_prefix_length_le h.occurs h'.occurs (Nat.le_of_eq hlengths)
  exact hprefix.eq_of_length hlengths

/-- Blanks around a line move its first declaration. -/
theorem padded (h : FirstDeclaration line front start) {before after : List Char}
    (hbefore : ∀ c ∈ before, isBlank c = true) (hafter : ∀ c ∈ after, isBlank c = true) :
    FirstDeclaration (before ++ line ++ after) (before ++ front) start := by
  obtain ⟨earlier, later, hlist, hnone⟩ := h.listed
  obtain ⟨hne, hfirst, -⟩ := ends_of_mem_declarationStarts start h.mem
  refine ⟨⟨earlier, later, hlist, fun other hother => ?_⟩, ?_, fun other hother => ?_⟩
  · obtain ⟨-, hfirst, hlast⟩ := ends_of_mem_declarationStarts other (by simp [hlist, hother])
    rw [Text.infix_padded_iff hfirst hlast hbefore hafter]
    exact hnone other hother
  · rw [List.append_assoc, List.append_assoc, List.prefix_append_right_inj]
    exact h.occurs.trans (List.prefix_append _ _)
  · rw [List.append_assoc] at hother
    have hbehind : before.length ≤ other.length := by
      obtain ⟨c, tail, hstart⟩ := List.exists_cons_of_ne_nil hne
      rw [hstart] at hfirst hother
      exact Text.length_le_of_append_prefix (hfirst c rfl) hbefore hother
    obtain ⟨moved, rfl⟩ := List.prefix_of_prefix_length_le (List.prefix_append _ _)
      ((List.prefix_append _ _).trans hother) hbehind
    rw [List.append_assoc, List.prefix_append_right_inj] at hother
    rw [List.length_append, List.length_append]
    refine Nat.add_le_add_left (Nat.not_lt.mp fun hshorter => ?_) _
    -- what is shorter than the first declaration ends before the blanks behind the line
    have hroom := h.occurs.length_le
    rw [List.length_append] at hroom
    have hline : moved ++ start.toList <+: line := by
      refine List.prefix_of_prefix_length_le hother (List.prefix_append _ _) ?_
      rw [List.length_append]
      omega
    exact Nat.not_lt.mpr (h.leftmost moved hline) hshorter

end FirstDeclaration

/-! ## Columns -/

theorem beforeAnchor_of_not_declares {line : List Char} (h : ¬ Declares line)
    (fallback : AnchorFallback) : beforeAnchor line fallback =
      match fallback with
      | .lineEnd => trimEnd line
      | .lineStart => [] := by
  have hfind :
      declarationStarts.findSome? (fun start => upTo (trimEnd line) start.toList) = none := by
    refine List.findSome?_eq_none_iff.mpr fun start hstart => ?_
    rw [upTo_trimEnd_eq_none_iff hstart]
    exact fun hoccurs => h ⟨start, hstart, hoccurs⟩
  cases fallback <;> simp only [beforeAnchor, hfind]

theorem Declares.padded {line before after : List Char} (h : Declares line)
    (hbefore : ∀ c ∈ before, isBlank c = true) (hafter : ∀ c ∈ after, isBlank c = true) :
    Declares (before ++ line ++ after) := by
  obtain ⟨front, start, hfirst, -⟩ := exists_firstDeclaration h
  have hpadded := hfirst.padded hbefore hafter
  exact ⟨start, hpadded.mem, hpadded.isInfix⟩

/-- **An anchor stands behind the first declaration of its line.** -/
theorem anchorColumn_behind_declaration (line : String) (fallback : AnchorFallback) :
    (Declares line.toList →
      (∃ front start, FirstDeclaration line.toList front start ∧
        anchorColumn line fallback = (utf16 (front ++ start.toList)).length) ∧
      ∀ before after : String, (∀ c ∈ before.toList, isBlank c = true) →
        (∀ c ∈ after.toList, isBlank c = true) → ∀ other,
          anchorColumn (before ++ line ++ after) other =
            (utf16 before.toList).length + anchorColumn line fallback) ∧
    ∃ body blanks, line.toList = body ++ blanks ∧ (∀ c ∈ blanks, isBlank c = true) ∧
      (∀ c ∈ body.getLast?, ¬ isBlank c = true) ∧
      anchorColumn line fallback ≤ (utf16 body).length ∧
      (¬ Declares line.toList → anchorColumn line fallback =
        match fallback with
        | .lineEnd => (utf16 body).length
        | .lineStart => 0) := by
  simp only [anchorColumn, Text.length_utf16]
  constructor
  · intro hdeclares
    obtain ⟨front, start, hfirst, hbehind⟩ := exists_firstDeclaration hdeclares
    refine ⟨⟨front, start, hfirst, congrArg units16 (hbehind fallback)⟩,
      fun before after hbefore hafter other => ?_⟩
    obtain ⟨front', start', hfirst', hbehind'⟩ :=
      exists_firstDeclaration (hdeclares.padded hbefore hafter)
    rw [String.toList_append, String.toList_append, hbehind', hbehind,
      hfirst'.unique (hfirst.padded hbefore hafter), List.append_assoc, Text.units16_append]
  · obtain ⟨blanks, hline, hblanks, hlast⟩ := Text.exists_eq_trimEnd_append line.toList
    have hbefore := beforeAnchor_prefix line.toList fallback
    refine ⟨_, blanks, hline, hblanks, hlast, units16_le_of_prefix hbefore, fun hnone => ?_⟩
    rw [beforeAnchor_of_not_declares hnone]
    cases fallback <;> rfl

/-- A kind that is listed earlier wins against one that stands further to the left. -/
example : anchorColumn "\t/*👍*/ const load = async function () \x7b " .lineStart = 35 := by
  decide +kernel

end MemoHints
