import MemoHints.Text.Blank
import MemoHints.Text.Search

/-!
# What a search in a text finds

A search finds a needle exactly when the needle is a stretch of the text.  The blanks around a text
do not matter to a needle that neither starts nor ends with one.
-/

namespace MemoHints.Text

/-- What is found is a stretch of the text. -/
theorem splitAtFirst_eq_some {needle text front back : List Char}
    (h : splitAtFirst needle text = some (front, back)) : text = front ++ needle ++ back := by
  induction text generalizing front with
  | nil =>
    rw [splitAtFirst] at h
    split at h
    next hnil =>
      obtain ⟨rfl, rfl⟩ := Prod.mk.inj (Option.some.inj h)
      rw [List.isEmpty_iff.mp hnil]
      rfl
    next => cases h
  | cons c rest ih =>
    rw [splitAtFirst] at h
    split at h
    next hstart =>
      obtain ⟨rfl, rfl⟩ := Prod.mk.inj (Option.some.inj h)
      obtain ⟨after, hafter⟩ := List.isPrefixOf_iff_prefix.mp hstart
      rw [← hafter, List.drop_left, List.nil_append]
    next =>
      obtain ⟨⟨before, after⟩, hrest, hparts⟩ := Option.map_eq_some_iff.mp h
      obtain ⟨rfl, rfl⟩ := Prod.mk.inj hparts
      rw [ih hrest]
      rfl

/-- A needle is found where its first character is. -/
theorem splitAtFirst_append {c : Char} {needle front : List Char} (h : c ∉ front)
    (rest : List Char) :
    splitAtFirst (c :: needle) (front ++ (c :: needle) ++ rest) = some (front, rest) := by
  induction front with
  | nil =>
    have hprefix : (c :: needle).isPrefixOf (c :: (needle ++ rest)) = true :=
      List.isPrefixOf_iff_prefix.mpr (List.prefix_append (c :: needle) rest)
    have hdrop : (c :: (needle ++ rest)).drop (c :: needle).length = rest := List.drop_left
    rw [List.nil_append, List.cons_append, splitAtFirst, if_pos hprefix, hdrop]
  | cons d front ih =>
    obtain ⟨hd, hfront⟩ := not_or.mp (mt List.mem_cons.mpr h)
    have hprefix : ¬ (c :: needle).isPrefixOf (d :: (front ++ (c :: needle) ++ rest)) = true := by
      simp [List.isPrefixOf, hd]
    rw [List.cons_append, List.cons_append, splitAtFirst, if_neg hprefix, ih hfront]
    rfl

/-- No other occurrence stands in front of the one that is found. -/
theorem splitAtFirst_leftmost {needle text front back other : List Char}
    (h : splitAtFirst needle text = some (front, back)) (hother : other ++ needle <+: text) :
    front.length ≤ other.length := by
  induction text generalizing front other with
  | nil =>
    obtain ⟨hfront, -⟩ := List.append_eq_nil_iff.mp (splitAtFirst_eq_some h).symm
    obtain ⟨rfl, -⟩ := List.append_eq_nil_iff.mp hfront
    exact Nat.zero_le _
  | cons c rest ih =>
    rw [splitAtFirst] at h
    split at h
    next =>
      obtain ⟨rfl, -⟩ := Prod.mk.inj (Option.some.inj h)
      exact Nat.zero_le _
    next hstart =>
      obtain ⟨⟨before, after⟩, hrest, hparts⟩ := Option.map_eq_some_iff.mp h
      obtain ⟨rfl, rfl⟩ := Prod.mk.inj hparts
      cases other with
      | nil => exact absurd (List.isPrefixOf_iff_prefix.mpr hother) hstart
      | cons d other =>
        exact Nat.succ_le_succ (ih hrest (List.cons_prefix_cons.mp hother).2)

/-- A text holds a needle when the needle is a stretch of it. -/
theorem contains_iff_infix {needle text : List Char} :
    contains needle text = true ↔ needle <:+: text := by
  unfold contains
  induction text with
  | nil => simp [splitAtFirst]
  | cons c rest ih =>
    rw [splitAtFirst, List.infix_cons_iff, ← ih, ← List.isPrefixOf_iff_prefix]
    split
    next hstart => simp [hstart]
    next hstart => simp [hstart]

variable {needle : List Char}

theorem infix_dropWhile_iff {p : Char → Bool} (hfirst : ∀ c ∈ needle.head?, ¬ p c = true)
    (text : List Char) : needle <:+: text.dropWhile p ↔ needle <:+: text := by
  induction text with
  | nil => rfl
  | cons c rest ih =>
    by_cases hc : p c = true
    · rw [List.dropWhile_cons_of_pos hc, ih, List.infix_cons_iff]
      refine ⟨.inr, fun h => h.elim (fun hstart => ?_) id⟩
      -- a needle that starts with a dropped member is empty
      cases needle with
      | nil => exact List.nil_infix
      | cons d needle =>
        obtain rfl := (List.cons_prefix_cons.mp hstart).1
        exact absurd hc (hfirst _ rfl)
    · rw [List.dropWhile_cons_of_neg hc]

theorem infix_trimEnd_iff (hlast : ∀ c ∈ needle.getLast?, ¬ isBlank c = true) (text : List Char) :
    needle <:+: trimEnd text ↔ needle <:+: text := by
  have hreverse : ∀ c ∈ needle.reverse.head?, ¬ isBlank c = true := by
    rwa [List.head?_reverse]
  rw [trimEnd, ← List.reverse_infix, List.reverse_reverse, infix_dropWhile_iff hreverse,
    List.reverse_infix]

/-- Trimming a text keeps what does not start or end with a blank. -/
theorem infix_trim_iff (hfirst : ∀ c ∈ needle.head?, ¬ isBlank c = true)
    (hlast : ∀ c ∈ needle.getLast?, ¬ isBlank c = true) (text : List Char) :
    needle <:+: trim text ↔ needle <:+: text := by
  rw [trim, infix_trimEnd_iff hlast, infix_dropWhile_iff hfirst]

theorem suffix_dropWhile_iff {p : Char → Bool} (hfirst : ∀ c ∈ needle.head?, ¬ p c = true)
    (text : List Char) : needle <:+ text.dropWhile p ↔ needle <:+ text := by
  induction text with
  | nil => rfl
  | cons c rest ih =>
    by_cases hc : p c = true
    · rw [List.dropWhile_cons_of_pos hc, ih, List.suffix_cons_iff]
      refine ⟨.inr, fun h => h.elim (fun hwhole => ?_) id⟩
      rw [hwhole] at hfirst
      exact absurd hc (hfirst c rfl)
    · rw [List.dropWhile_cons_of_neg hc]

/-- A text starts with what does not end with a blank, trimmed or not. -/
theorem prefix_trimEnd_iff (hlast : ∀ c ∈ needle.getLast?, ¬ isBlank c = true) (text : List Char) :
    needle <+: trimEnd text ↔ needle <+: text := by
  have hreverse : ∀ c ∈ needle.reverse.head?, ¬ isBlank c = true := by
    rwa [List.head?_reverse]
  rw [trimEnd, ← List.reverse_suffix, List.reverse_reverse, suffix_dropWhile_iff hreverse,
    List.reverse_suffix]

/-- Blanks around a text bring nothing into it that does not start or end with a blank. -/
theorem infix_padded_iff (hfirst : ∀ c ∈ needle.head?, ¬ isBlank c = true)
    (hlast : ∀ c ∈ needle.getLast?, ¬ isBlank c = true) {before after : List Char}
    (hbefore : ∀ c ∈ before, isBlank c = true) (hafter : ∀ c ∈ after, isBlank c = true)
    (text : List Char) : needle <:+: before ++ text ++ after ↔ needle <:+: text := by
  have hreverse : ∀ c ∈ after.reverse, isBlank c = true := fun c hc =>
    hafter c (List.mem_reverse.mp hc)
  rw [← infix_trimEnd_iff hlast, trimEnd, List.reverse_append,
    List.dropWhile_append_of_pos hreverse, ← trimEnd, infix_trimEnd_iff hlast,
    ← infix_dropWhile_iff hfirst, List.dropWhile_append_of_pos hbefore, infix_dropWhile_iff hfirst]

/-- What does not start with a blank comes behind the blanks in front of a text. -/
theorem length_le_of_append_prefix {c : Char} (hc : ¬ isBlank c = true)
    {before text other : List Char}
    (hbefore : ∀ c ∈ before, isBlank c = true) (h : other ++ c :: needle <+: before ++ text) :
    before.length ≤ other.length := by
  refine Nat.not_lt.mp fun hinside => hc (hbefore c ?_)
  rw [List.append_cons] at h
  have hblank : other ++ [c] <+: before := by
    refine List.prefix_of_prefix_length_le ((List.prefix_append _ _).trans h)
      (List.prefix_append _ _) ?_
    rwa [List.length_append, List.length_singleton]
  exact hblank.subset (List.mem_append_right _ (List.mem_singleton_self c))

/-- Whichever blanks are taken from the end of a text, trimming takes at least these. -/
theorem trimEnd_append_prefix (front : List Char) {blanks : List Char}
    (h : ∀ c ∈ blanks, isBlank c = true) : trimEnd (front ++ blanks) <+: front := by
  have hreverse : ∀ c ∈ blanks.reverse, isBlank c = true := fun c hc => h c (List.mem_reverse.mp hc)
  rw [trimEnd, List.reverse_append, List.dropWhile_append_of_pos hreverse, ← List.reverse_suffix,
    List.reverse_reverse]
  exact List.dropWhile_suffix isBlank

/-- Trimming takes the blanks at the end of a text, and no more than these. -/
theorem exists_eq_trimEnd_append (text : List Char) : ∃ blanks, text = trimEnd text ++ blanks ∧
    (∀ c ∈ blanks, isBlank c = true) ∧ ∀ c ∈ (trimEnd text).getLast?, ¬ isBlank c = true := by
  refine ⟨(text.reverse.takeWhile isBlank).reverse, ?_, fun c hc => ?_, fun c hc => ?_⟩
  · rw [trimEnd, ← List.reverse_append, List.takeWhile_append_dropWhile, List.reverse_reverse]
  · exact List.all_eq_true.mp List.all_takeWhile c (List.mem_reverse.mp hc)
  · have hfirst := List.head?_dropWhile_not isBlank text.reverse
    rw [trimEnd, List.getLast?_reverse, Option.mem_def] at hc
    rw [hc] at hfirst
    simpa using hfirst

end MemoHints.Text
