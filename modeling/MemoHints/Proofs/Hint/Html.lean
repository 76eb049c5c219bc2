import MemoHints.Hint.Tooltip
import MemoHints.Proofs.FileTree

/-!
# Reading HTML back

A reader of HTML knows nothing of who wrote it.  It splits a text at the tags, where a quoted value
does not end a tag, and replaces the entities in what it has split.  What is escaped holds none of
the characters that the reader splits at, so it reads what was written as one text or one value, and
reads the raw characters (`readText_escaped`, `unescape_escaped`).
-/

namespace MemoHints.Html

/-! ## Escaped texts -/

/-- The entities for the characters that mean something. -/
def entities : List (List Char) :=
  ["&amp;".toList, "&lt;".toList, "&gt;".toList, "&quot;".toList, "&#39;".toList]

/-- The characters that no escaped text holds. -/
def specials : List Char := ['<', '>', '"', '\'']

/-- A text with its entities replaced.  An ampersand that starts none of them stands for itself. -/
def unescape : List Char → List Char
  | '&' :: 'a' :: 'm' :: 'p' :: ';' :: rest => '&' :: unescape rest
  | '&' :: 'l' :: 't' :: ';' :: rest => '<' :: unescape rest
  | '&' :: 'g' :: 't' :: ';' :: rest => '>' :: unescape rest
  | '&' :: 'q' :: 'u' :: 'o' :: 't' :: ';' :: rest => '"' :: unescape rest
  | '&' :: '#' :: '3' :: '9' :: ';' :: rest => '\'' :: unescape rest
  | c :: rest => c :: unescape rest
  | [] => []

/-- The characters of an escaped text. -/
def escaped (s : String) : List Char := s.toList.flatMap escapeHtmlChar

@[simp] theorem toList_escapeHtml (s : String) : (escapeHtml s).toList = escaped s :=
  String.toList_ofList

theorem unescape_cons {c : Char} (h : c ≠ '&') (rest : List Char) :
    unescape (c :: rest) = c :: unescape rest := by
  rw [unescape.eq_def]
  split <;> simp_all

/-- A character stays as it is, or an entity stands for it. -/
theorem escapeHtmlChar_cases (c : Char) :
    (c ≠ '&' ∧ c ∉ specials ∧ escapeHtmlChar c = [c]) ∨
      (escapeHtmlChar c ∈ entities ∧
        ∀ rest, unescape (escapeHtmlChar c ++ rest) = c :: unescape rest) := by
  unfold escapeHtmlChar
  split
  case h_6 hamp hlt hgt hquote happ => exact .inl ⟨hamp, by simp_all [specials], rfl⟩
  all_goals exact .inr ⟨by decide, fun _ => rfl⟩

theorem entities_form : ∀ entity ∈ entities,
    (∀ c ∈ entity, c ∉ specials) ∧ entity.head? = some '&' ∧ '&' ∉ entity.tail := by
  simp [entities, specials]

theorem not_mem_specials_of_mem_escaped {s : String} {c : Char} (h : c ∈ escaped s) :
    c ∉ specials := by
  obtain ⟨d, -, hc⟩ := List.mem_flatMap.mp h
  rcases escapeHtmlChar_cases d with ⟨-, hspecial, hd⟩ | ⟨hentity, -⟩
  · rw [hd, List.mem_singleton] at hc
    rwa [hc]
  · exact (entities_form _ hentity).1 c hc

/-- Replacing entities gives back what was escaped. -/
theorem unescape_escaped (s : String) (rest : List Char) :
    unescape (escaped s ++ rest) = s.toList ++ unescape rest := by
  unfold escaped
  induction s.toList with
  | nil => rfl
  | cons c cs ih =>
    rw [List.flatMap_cons, List.append_assoc]
    rcases escapeHtmlChar_cases c with ⟨hne, -, hc⟩ | ⟨-, hc⟩
    · rw [hc, List.singleton_append, unescape_cons hne, ih, List.cons_append]
    · rw [hc, ih, List.cons_append]

theorem suffix_of_not_mem {α : Type} {x : α} {post l rest : List α} (hx : x ∉ l)
    (h : x :: post <:+ l ++ rest) : x :: post <:+ rest := by
  induction l with
  | nil => exact h
  | cons y l ih =>
    obtain ⟨hy, hl⟩ := not_or.mp (mt List.mem_cons.mpr hx)
    rcases List.suffix_cons_iff.mp h with hwhole | hsuffix
    · exact absurd (List.cons.inj hwhole).1 hy
    · exact ih hl hsuffix

/-- An ampersand in an escaped text starts an entity. -/
theorem entity_prefix_of_suffix {s : String} {post : List Char} (h : '&' :: post <:+ escaped s) :
    ∃ entity ∈ entities, entity <+: '&' :: post := by
  unfold escaped at h
  generalize s.toList = cs at h
  induction cs with
  | nil => exact absurd (List.suffix_nil.mp h) (List.cons_ne_nil _ _)
  | cons c cs ih =>
    rw [List.flatMap_cons] at h
    rcases escapeHtmlChar_cases c with ⟨hne, -, hc⟩ | ⟨hentity, -⟩
    · rw [hc] at h
      exact ih (suffix_of_not_mem (by simpa using hne.symm) h)
    · obtain ⟨-, hhead, htail⟩ := entities_form _ hentity
      obtain ⟨tail, hform⟩ := List.head?_eq_some_iff.mp hhead
      rw [hform] at h htail
      -- either at the start of the entity or after it
      rcases List.suffix_cons_iff.mp h with hwhole | hsuffix
      · exact ⟨_, hentity, by rw [hwhole, hform]; exact List.prefix_append _ _⟩
      · exact ih (suffix_of_not_mem htail hsuffix)

/-! ## The reader -/

/-- A text split at its tags: what stands before the first tag, and the inside of each tag with what
stands after it. -/
structure Page where
  lead : List Char := []
  rest : List (List Char × List Char) := []

mutual

/-- Reads from between tags. -/
def readText : List Char → Page
  | [] => {}
  | c :: rest =>
    if c = '<' then { rest := ((readTag rest).1, (readTag rest).2.lead) :: (readTag rest).2.rest }
    else { lead := c :: (readText rest).lead, rest := (readText rest).rest }

/-- Reads on from within a tag: the rest of its inside, and what follows the tag. -/
def readTag : List Char → List Char × Page
  | [] => ([], {})
  | c :: rest =>
    if c = '>' then ([], readText rest)
    else if c = '"' then (c :: (readQuoted rest).1, (readQuoted rest).2)
    else (c :: (readTag rest).1, (readTag rest).2)

/-- Reads on from within a quoted value of a tag. -/
def readQuoted : List Char → List Char × Page
  | [] => ([], {})
  | c :: rest =>
    if c = '"' then (c :: (readTag rest).1, (readTag rest).2)
    else (c :: (readQuoted rest).1, (readQuoted rest).2)

end

/-- A tag: its name, which starts with a slash when the tag closes, and the value of its `href`. -/
structure Tag where
  name : String
  href : Option String := none
deriving DecidableEq

/-- The value of an `href` that is all there is after the name of a tag. -/
def hrefOf? : List Char → Option String
  | ' ' :: 'h' :: 'r' :: 'e' :: 'f' :: '=' :: '"' :: rest =>
    let value := rest.takeWhile (· ≠ '"')
    if rest = value ++ ['"'] then some (String.ofList (unescape value)) else none
  | _ => none

def Tag.ofInside (inside : List Char) : Tag :=
  { name := String.ofList (inside.takeWhile (· ≠ ' '))
    href := hrefOf? (inside.dropWhile (· ≠ ' ')) }

namespace Page

/-- The tags in their order. -/
def tags (page : Page) : List Tag := page.rest.map fun part => Tag.ofInside part.1

/-- The texts before, between and after the tags, with their entities replaced. -/
def texts (page : Page) : List String :=
  (page.lead :: page.rest.map (·.2)).map fun text => String.ofList (unescape text)

end Page

/-- What a reader finds in a text of HTML. -/
def read (html : String) : Page := readText html.toList

/-! ## What is written is read -/

/-- A text without the start of a tag is read as text. -/
theorem readText_append {text : List Char} (h : '<' ∉ text) (rest : List Char) :
    readText (text ++ rest) =
      { lead := text ++ (readText rest).lead, rest := (readText rest).rest } := by
  induction text with
  | nil => rfl
  | cons c text ih =>
    obtain ⟨hc, htext⟩ := not_or.mp (mt List.mem_cons.mpr h)
    rw [List.cons_append, readText, if_neg (Ne.symm hc), ih htext]
    rfl

theorem readTag_append {inside : List Char} (h : '>' ∉ inside) (hquote : '"' ∉ inside)
    (rest : List Char) :
    readTag (inside ++ rest) = (inside ++ (readTag rest).1, (readTag rest).2) := by
  induction inside with
  | nil => rfl
  | cons c inside ih =>
    obtain ⟨hc, hinside⟩ := not_or.mp (mt List.mem_cons.mpr h)
    obtain ⟨hcquote, hquote⟩ := not_or.mp (mt List.mem_cons.mpr hquote)
    rw [List.cons_append, readTag, if_neg (Ne.symm hc), if_neg (Ne.symm hcquote),
      ih hinside hquote]
    rfl

theorem readQuoted_append {value : List Char} (h : '"' ∉ value) (rest : List Char) :
    readQuoted (value ++ rest) = (value ++ (readQuoted rest).1, (readQuoted rest).2) := by
  induction value with
  | nil => rfl
  | cons c value ih =>
    obtain ⟨hc, hvalue⟩ := not_or.mp (mt List.mem_cons.mpr h)
    rw [List.cons_append, readQuoted, if_neg (Ne.symm hc), ih hvalue]
    rfl

/-- The inside of a tag, as it is written. -/
def Tag.inside (tag : Tag) : List Char :=
  tag.name.toList ++ match tag.href with
    | some target => " href=\"".toList ++ escaped target ++ ['"']
    | none => []

/-- A tag whose name is a name. -/
def Tag.IsPlain (tag : Tag) : Prop := ∀ c ∈ tag.name.toList, c ∉ '<' :: '>' :: '"' :: [' ']

instance (tag : Tag) : Decidable tag.IsPlain :=
  inferInstanceAs (Decidable (∀ c ∈ tag.name.toList, c ∉ '<' :: '>' :: '"' :: [' ']))

theorem hrefOf?_escaped (target : String) :
    hrefOf? (" href=\"".toList ++ escaped target ++ ['"']) = some target := by
  have hquote : ∀ c ∈ escaped target, decide (c ≠ '"') = true := by
    intro c hc
    have hspecial := not_mem_specials_of_mem_escaped hc
    simp only [specials, List.mem_cons, not_or] at hspecial
    exact decide_eq_true hspecial.2.2.1
  have hvalue : (escaped target ++ ['"']).takeWhile (· ≠ '"') = escaped target := by
    rw [List.takeWhile_append_of_pos hquote]
    simp
  have hdecode : unescape (escaped target) = target.toList := by
    simpa [unescape] using unescape_escaped target []
  change (if escaped target ++ ['"'] = (escaped target ++ ['"']).takeWhile (· ≠ '"') ++ ['"'] then
    some (String.ofList (unescape ((escaped target ++ ['"']).takeWhile (· ≠ '"')))) else none) = _
  rw [hvalue, if_pos rfl, hdecode, String.ofList_toList]

/-- A tag is read from its inside. -/
theorem Tag.ofInside_inside {tag : Tag} (h : tag.IsPlain) : Tag.ofInside tag.inside = tag := by
  have hname : ∀ c ∈ tag.name.toList, decide (c ≠ ' ') = true := by
    intro c hc
    have hmark := h c hc
    simp only [List.mem_cons, not_or] at hmark
    exact decide_eq_true hmark.2.2.2.1
  obtain ⟨name, href⟩ := tag
  cases href with
  | none =>
    simp only [Tag.ofInside, Tag.inside]
    rw [List.takeWhile_append_of_pos hname, List.dropWhile_append_of_pos hname, List.takeWhile_nil,
      List.append_nil, String.ofList_toList]
    rfl
  | some target =>
    simp only [Tag.ofInside, Tag.inside]
    rw [List.takeWhile_append_of_pos hname, List.dropWhile_append_of_pos hname]
    have hspace : (" href=\"".toList ++ escaped target ++ ['"']).takeWhile (· ≠ ' ') = [] := rfl
    have hall : (" href=\"".toList ++ escaped target ++ ['"']).dropWhile (· ≠ ' ') =
      " href=\"".toList ++ escaped target ++ ['"'] := rfl
    rw [hspace, hall, hrefOf?_escaped, List.append_nil, String.ofList_toList]

/-- A tag that is written is read as one tag. -/
theorem readText_tag {tag : Tag} (h : tag.IsPlain) (rest : List Char) :
    readText ('<' :: tag.inside ++ '>' :: rest) =
      { rest := (tag.inside, (readText rest).lead) :: (readText rest).rest } := by
  have hplain : '>' ∉ tag.name.toList ∧ '"' ∉ tag.name.toList :=
    ⟨fun hc => h _ hc (by decide), fun hc => h _ hc (by decide)⟩
  have hclose : readTag ('>' :: rest) = ([], readText rest) := by rw [readTag, if_pos rfl]
  have hinside : readTag (tag.inside ++ '>' :: rest) = (tag.inside, readText rest) := by
    obtain ⟨name, href⟩ := tag
    cases href with
    | none =>
      simp only [Tag.inside]
      rw [List.append_nil, readTag_append hplain.1 hplain.2, hclose, List.append_nil]
    | some target =>
      have hquote : '"' ∉ escaped target := fun hc =>
        not_mem_specials_of_mem_escaped hc (by decide)
      have hstart : '>' ∉ " href=".toList ∧ '"' ∉ " href=".toList := by decide
      -- the value is read in quotes, and the tag goes on after them
      have hopen : readTag ('"' :: (escaped target ++ '"' :: '>' :: rest)) =
          ('"' :: escaped target ++ ['"'], readText rest) := by
        rw [readTag, if_neg (by decide), if_pos rfl, readQuoted_append hquote, readQuoted,
          if_pos rfl, hclose]
        rfl
      have hsplit : name.toList ++ (" href=\"".toList ++ escaped target ++ ['"']) ++ '>' :: rest =
          name.toList ++ (" href=".toList ++ '"' :: (escaped target ++ '"' :: '>' :: rest)) := by
        simp
      simp only [Tag.inside]
      rw [hsplit, readTag_append hplain.1 hplain.2, readTag_append hstart.1 hstart.2, hopen]
      simp
  rw [List.cons_append, readText, if_pos rfl, hinside]

end MemoHints.Html
