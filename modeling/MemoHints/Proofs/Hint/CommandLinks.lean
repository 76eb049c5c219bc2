import MemoHints.Hint.Tooltip
import MemoHints.Proofs.Event.Fits
import MemoHints.Proofs.FileTree
import MemoHints.Proofs.Hint.Html
import MemoHints.Proofs.Json.Written
import MemoHints.Proofs.Text.Percent
import MemoHints.Proofs.Text.Search
import MemoHints.Proofs.Text.Utf8
import MemoHints.Text.Natural

/-!
# What the links of a failure carry

The target of a link is a command with its arguments, which are JSON in UTF-8, percent-encoded.
Each of these three layers is undone by its reader, so whatever a reason or a name of a file holds,
the editor gets the arguments that the link was made of (`argumentsIn_target`).  Outside, only
characters of the last layer are seen, and none of them means anything to Markdown or HTML
(`IsTargetChar`).

## Lines are counted twice

The compiler counts lines from one, editors from zero, and the label of a link shows them from one
again.  A line zero, which the compiler should not report, is taken for the first one.
-/

namespace MemoHints

open Json (Plain)

/-! ## Numbers in a text -/

namespace Text

def notDigit (c : Char) : Bool := !c.isDigit

/-- The runs of digits in a text. -/
def digitRuns (cs : List Char) : List (List Char) := (splitWhere notDigit cs).filter (· ≠ [])

/-- The numbers in a text. -/
def numbersIn (s : String) : List Nat := (digitRuns s.toList).map digitsToNat

theorem digitRuns_append_cons {c : Char} (h : notDigit c = true) (front rest : List Char) :
    digitRuns (front ++ c :: rest) = digitRuns front ++ digitRuns rest := by
  rw [digitRuns, splitWhere_append_cons h, List.filter_append]
  rfl

theorem digitRuns_words {words : List Char} (h : words.all notDigit = true)
    (rest : List Char) : digitRuns (words ++ rest) = digitRuns rest := by
  induction words with
  | nil => rfl
  | cons c words ih =>
    rw [List.all_cons, Bool.and_eq_true] at h
    exact (digitRuns_append_cons h.1 [] _).trans (ih h.2)

theorem digitRuns_number (n : Nat) : digitRuns (toString n).toList = [(toString n).toList] := by
  have hdigits : (toString n).toList = Nat.toDigits 10 n := by
    rw [Nat.toString_eq_repr, Nat.toList_repr]
  have hnone : ∀ c ∈ Nat.toDigits 10 n, ¬ notDigit c = true := fun c hc => by
    simp [notDigit, Nat.isDigit_of_mem_toDigits (by decide) (by decide) hc]
  rw [digitRuns, hdigits, splitWhere_of_forall_not hnone]
  exact List.filter_eq_self.mpr fun l hl => by
    simp [List.mem_singleton.mp hl, Nat.toDigits_ne_nil]

theorem digitsToNat_number (n : Nat) : digitsToNat (toString n).toList = n := by
  rw [Nat.toString_eq_repr, Nat.toList_repr]
  exact Nat.ofDigitChars_ten_toDigits

end Text

/-! ## Targets -/

/-- The characters of targets. -/
def IsTargetChar (c : Char) : Prop := Percent.IsEncodedChar c ∨ c ∈ [':', '?']

instance : DecidablePred IsTargetChar := fun c => inferInstanceAs
  (Decidable ((c.isAlphanum = true ∨ c ∈ ['-', '.', '_', '~', '%']) ∨ c ∈ [':', '?']))

theorem IsTargetChar.bounds {c : Char} (h : IsTargetChar c) : 0x20 < c.toNat ∧ c.toNat < 0x80 := by
  rcases h with (halpha | hmark) | hmark
  · have hranges : ((decide (c.val ≥ 'A'.val ∧ c.val ≤ 'Z'.val) ||
        decide (c.val ≥ 'a'.val) && decide (c.val ≤ 'z'.val)) ||
          decide (c.val ≥ '0'.val) && decide (c.val ≤ '9'.val)) = true := halpha
    simp only [Bool.or_eq_true, Bool.and_eq_true, decide_eq_true_eq, UInt32.le_iff_toNat_le,
      ge_iff_le] at hranges
    change ((65 ≤ c.toNat ∧ c.toNat ≤ 90) ∨ (97 ≤ c.toNat ∧ c.toNat ≤ 122)) ∨
      (48 ≤ c.toNat ∧ c.toNat ≤ 57) at hranges
    omega
  · simp only [List.mem_cons, List.not_mem_nil, or_false] at hmark
    rcases hmark with rfl | rfl | rfl | rfl | rfl <;> decide
  · simp only [List.mem_cons, List.not_mem_nil, or_false] at hmark
    rcases hmark with rfl | rfl <;> decide

theorem IsTargetChar.not_isBlank {c : Char} (h : IsTargetChar c) : Text.isBlank c = false := by
  have hbounds := h.bounds
  rw [← Bool.not_eq_true]
  unfold Text.isBlank
  simp only [Bool.or_eq_true, Bool.and_eq_true, decide_eq_true_eq, beq_iff_eq]
  omega

/-- Marks of the dialects are not among them. -/
theorem IsTargetChar.ne {c d : Char} (h : IsTargetChar c)
    (hd : d ∈ [')', '(', '"', '<', '>', '&', '\'']) : c ≠ d := by
  rintro rfl
  simp only [List.mem_cons, List.not_mem_nil, or_false] at hd
  rcases hd with rfl | rfl | rfl | rfl | rfl | rfl | rfl <;> exact absurd h (by decide)

/-- A command whose name is a word. -/
def CommandLink.IsWord (command : CommandLink) : Prop :=
  command.name.toList.all Char.isAlphanum = true

theorem isTargetChar_of_mem_target {command : CommandLink} (hname : command.IsWord) :
    ∀ c ∈ command.target.toList, IsTargetChar c := by
  have hstart : ∀ c ∈ commandPrefix.toList, decide (IsTargetChar c) = true :=
    List.all_eq_true.mp (by decide)
  intro c hc
  rw [CommandLink.target, String.toList_append, String.toList_append] at hc
  rcases List.mem_append.mp hc with hc | hc
  · rcases List.mem_append.mp hc with hc | hc
    · exact of_decide_eq_true (hstart c hc)
    · exact .inl (.inl (List.all_eq_true.mp hname c hc))
  · cases harguments : command.arguments with
    | none => simp [harguments] at hc
    | some v =>
      rw [harguments] at hc
      simp only [String.toList_append, String.toList_ofList] at hc
      rcases List.mem_append.mp hc with hc | hc
      · exact .inr (List.mem_cons_of_mem _ hc)
      · exact .inl (Percent.isEncodedChar_of_mem hc)

/-- The value in the query of a target: what follows the question mark, decoded. -/
def argumentsIn (target : String) : Option Json :=
  (Text.Utf8.decode? (Percent.decode ((target.toList.dropWhile (· ≠ '?')).drop 1))).bind Json.read

/-- **A target carries its arguments.** -/
theorem argumentsIn_target {command : CommandLink} {v : Json} (hname : command.IsWord)
    (harguments : command.arguments = some v) (hplain : Plain Json.maxDepth v.sorted) :
    argumentsIn command.target = some v.sorted := by
  have hfront : ∀ c ∈ (commandPrefix ++ command.name).toList, decide (c ≠ '?') = true := by
    have hstart : ∀ c ∈ commandPrefix.toList, decide (c ≠ '?') = true :=
      List.all_eq_true.mp (by decide)
    intro c hc
    rw [String.toList_append] at hc
    rcases List.mem_append.mp hc with hc | hc
    · exact hstart c hc
    · refine decide_eq_true ?_
      rintro rfl
      exact absurd (List.all_eq_true.mp hname _ hc) (by decide)
  have htarget : command.target.toList = (commandPrefix ++ command.name).toList ++
      '?' :: Percent.encodeBytes (Text.Utf8.encode v.sorted.compact) := by
    rw [CommandLink.target, harguments]
    simp
  have hquery : (command.target.toList.dropWhile (· ≠ '?')).drop 1 =
      Percent.encodeBytes (Text.Utf8.encode v.sorted.compact) := by
    rw [htarget, List.dropWhile_append_of_pos hfront]
    simp
  rw [argumentsIn, hquery, Percent.decode_encodeBytes, Text.Utf8.decode?_encode, Option.bind_some,
    Json.read_compact hplain (Nat.le_refl _)]

/-! ## Dialects -/

/-- The label and the target of a link of Markdown at the front of a text, and what follows it. -/
def readLink? : List Char → Option (String × String × List Char)
  | '[' :: text => do
    let (label, text) ← Text.splitAtFirst "](".toList text
    let (target, text) ← Text.splitAtFirst ")".toList text
    some (String.ofList label, String.ofList target, text)
  | _ => none

/-- A link of which neither dialect touches the target, whatever stands behind it. -/
structure HandedOn (label : String) (command : CommandLink) : Prop where
  plain : ∀ c ∈ command.target.toList,
    c ∉ [')', '(', '"', '<', '>', '&'] ∧ Text.isBlank c = false
  markdown : ∀ spans, readLink? (renderSpans .markdown (.link label command :: spans)).toList =
    some (label, command.target, (renderSpans .markdown spans).toList)
  html : escapeHtml command.target = command.target

theorem readLink?_append {label target : String} (hlabel : ']' ∉ label.toList)
    (htarget : ')' ∉ target.toList) (rest : List Char) :
    readLink? ('[' :: (label.toList ++ "](".toList ++ (target.toList ++ ")".toList ++ rest))) =
      some (label, target, rest) := by
  have hopened : Text.splitAtFirst "](".toList
      (label.toList ++ "](".toList ++ (target.toList ++ ")".toList ++ rest)) =
        some (label.toList, target.toList ++ ")".toList ++ rest) :=
    Text.splitAtFirst_append hlabel _
  have hclosed : Text.splitAtFirst ")".toList (target.toList ++ ")".toList ++ rest) =
      some (target.toList, rest) := Text.splitAtFirst_append htarget rest
  simp only [readLink?, hopened, hclosed, Option.bind_eq_bind, Option.bind_some,
    String.ofList_toList]

theorem handedOn {label : String} {command : CommandLink} (hlabel : ']' ∉ label.toList)
    (hname : command.IsWord) : HandedOn label command where
  plain c hc := by
    have htarget := isTargetChar_of_mem_target hname c hc
    refine ⟨fun hmark => ?_, htarget.not_isBlank⟩
    exact htarget.ne (List.mem_append_left ['\''] hmark) rfl
  markdown spans := by
    have hclose : ')' ∉ command.target.toList := fun hc =>
      (isTargetChar_of_mem_target hname _ hc).ne (by decide) rfl
    rw [← readLink?_append hlabel hclose]
    congr 1
    simp [renderSpans, Span.render, String.join_cons]
  html := by
    have hchar : ∀ c ∈ command.target.toList, escapeHtmlChar c = [c] := by
      intro c hc
      have htarget := isTargetChar_of_mem_target hname c hc
      unfold escapeHtmlChar
      split
      case h_6 => rfl
      all_goals exact absurd rfl (htarget.ne (by decide))
    have hflat : command.target.toList.flatMap escapeHtmlChar = command.target.toList := by
      rw [List.flatMap_congr hchar]
      simp
    rw [escapeHtml, hflat, String.ofList_toList]

/-! ## Lines -/

theorem ErrorSpan.numbersIn_lines (span : ErrorSpan) : Text.numbersIn span.lines =
    if span.startLine = span.endLine then [span.startLine + 1]
    else [span.startLine + 1, span.endLine + 1] := by
  have hline : "📍 Line ".toList.all Text.notDigit = true := by decide
  have hlines : "📍 Lines ".toList.all Text.notDigit = true := by decide
  unfold lines Text.numbersIn
  split
  next =>
    rw [String.toList_append, Text.digitRuns_words hline, Text.digitRuns_number, List.map_singleton,
      Text.digitsToNat_number]
  next =>
    have hdash : ∀ first last : List Char, first ++ "-".toList ++ last = first ++ '-' :: last :=
      fun _ _ => List.append_assoc _ _ _
    rw [String.toList_append, String.toList_append, String.toList_append, hdash,
      Text.digitRuns_append_cons rfl, Text.digitRuns_words hlines, Text.digitRuns_number,
      Text.digitRuns_number, List.map_append, List.map_singleton, List.map_singleton,
      Text.digitsToNat_number, Text.digitsToNat_number]
    rfl

theorem ErrorSpan.not_mem_lines (span : ErrorSpan) : ']' ∉ span.lines.toList := by
  have hnumber : ∀ n : Nat, ']' ∉ Nat.toDigits 10 n := fun n hc =>
    absurd (Nat.isDigit_of_mem_toDigits (by decide) (by decide) hc) (by decide)
  unfold lines
  split
  all_goals simp [hnumber]

/-- A span that counts from zero the lines that a range counts from one, and whose lines could be
counted from one again. -/
structure SourceRange.Counts (range : SourceRange) (span : ErrorSpan) : Prop where
  start : ∀ n ∈ range.startLine?, span.startLine + 1 = max 1 n
  finish : ∀ n ∈ range.finish.bind (·.line), span.endLine + 1 = max 1 n
  startLine_lt : span.startLine + 1 < 2 ^ 32
  endLine_lt : span.endLine + 1 < 2 ^ 32
  startCharacter_lt : span.startCharacter < 2 ^ 32
  endCharacter_lt : span.endCharacter < 2 ^ 32

theorem SourceRange.Fits.counts {range : SourceRange} (h : range.Fits) :
    range.Counts (EventDetail.spanOf range) := by
  obtain ⟨start, finish⟩ := range
  have hstart : (start.getD {}).Fits := by
    cases start with
    | none => exact ⟨nofun, nofun, nofun⟩
    | some point => exact h.start point rfl
  have hfinish : (finish.getD (start.getD {})).Fits := by
    cases finish with
    | none => exact hstart
    | some point => exact h.finish point rfl
  have hcolumn : ∀ {point : SourcePoint}, point.Fits → point.column.getD 0 < 2 ^ 32 := by
    rintro ⟨line, _ | n, index⟩ hpoint
    · exact Nat.two_pow_pos 32
    · exact hpoint.column n rfl
  have hfirst : (start.getD {}).line.getD 1 - 1 + 1 < 2 ^ 32 := by
    cases hline : (start.getD {}).line with
    | none => decide
    | some n =>
      have hn := hstart.line n hline
      rw [Option.getD_some]
      omega
  refine ⟨?_, ?_, hfirst, ?_, hcolumn hstart, hcolumn hfinish⟩
  · rintro n hn
    obtain ⟨point, rfl, hline⟩ := Option.bind_eq_some_iff.mp hn
    simp only [EventDetail.spanOf, Option.getD_some, hline]
    omega
  · rintro n hn
    obtain ⟨point, rfl, hline⟩ := Option.bind_eq_some_iff.mp hn
    simp only [EventDetail.spanOf, Option.getD_some, hline, Option.map_some]
    omega
  · cases hline : (finish.getD (start.getD {})).line with
    | none =>
      simp only [EventDetail.spanOf, hline, Option.map_none, Option.getD_none]
      exact hfirst
    | some n =>
      have hn := hfinish.line n hline
      simp only [EventDetail.spanOf, hline, Option.map_some, Option.getD_some]
      omega

/-! ## Links -/

/-- The links among spans, with their labels. -/
def linksOf (spans : List Span) : List (String × CommandLink) :=
  spans.filterMap fun span =>
    match span with
    | .link label command => some (label, command)
    | _ => none

theorem linksOf_failureSpans {event : DiagnosticEvent} {span : ErrorSpan}
    (h : event.errorSpan? = some span) (filename : String) (links : LinkOptions) :
    linksOf (failureSpans event filename links) =
      (if links.commandLinks then [(span.lines, revealCommand span)] else []) ++
        if links.commandLinks && links.fixWithAi then
          [("Fix with AI", fixCommand event.reason filename span)]
        else [] := by
  obtain ⟨commandLinks, fixWithAi⟩ := links
  unfold failureSpans
  rw [h]
  cases event.description?
  all_goals cases commandLinks <;> cases fixWithAi <;> rfl

theorem isWord_revealCommand (span : ErrorSpan) : (revealCommand span).IsWord := by
  change "revealSelection".toList.all Char.isAlphanum = true
  decide

theorem isWord_fixCommand (reason filename : String) (span : ErrorSpan) :
    (fixCommand reason filename span).IsWord := by
  change "fixWithAI".toList.all Char.isAlphanum = true
  decide

/-- The links of a failure carry its place, and that is the place which the compiler reports. -/
structure CarryPlace (reason filename : String) (range : SourceRange) (span : ErrorSpan) :
    Prop where
  reveal : argumentsIn (revealCommand span).target = some (.obj
    [("end", .obj [("character", .nat span.endCharacter), ("line", .nat span.endLine)]),
      ("start", .obj [("character", .nat span.startCharacter), ("line", .nat span.startLine)])])
  fix : argumentsIn (fixCommand reason filename span).target = some (.obj
    [("endLine", .nat span.endLine), ("filename", .str filename), ("reason", .str reason),
      ("startLine", .nat span.startLine)])
  /-- The label has the lines as they are counted from one. -/
  label : Text.numbersIn span.lines =
    if span.startLine = span.endLine then [span.startLine + 1]
    else [span.startLine + 1, span.endLine + 1]
  counts : range.Counts span

namespace Json

theorem plain_obj {depth : Nat} {members : List (String × Json)}
    (h : members.Forall fun m => Plain depth m.2) : Plain (depth + 1) (.obj members) :=
  .obj (List.forall_iff_forall_mem.mp h)

theorem plain_nat {depth n : Nat} (h : n < 2 ^ 32) : Plain depth (.nat n) :=
  .int (by omega) (by omega)

end Json

open Json (plain_obj plain_nat)

theorem SourceRange.Counts.carryPlace {range : SourceRange} {span : ErrorSpan}
    (h : range.Counts span) (reason filename : String) :
    CarryPlace reason filename range span := by
  have hstart {depth : Nat} : Plain depth (.nat span.startLine) :=
    plain_nat (Nat.lt_of_succ_lt h.startLine_lt)
  have hend {depth : Nat} : Plain depth (.nat span.endLine) :=
    plain_nat (Nat.lt_of_succ_lt h.endLine_lt)
  refine ⟨?_, ?_, span.numbersIn_lines, h⟩
  · refine argumentsIn_target (isWord_revealCommand span) rfl ?_
    exact plain_obj ⟨plain_obj ⟨plain_nat h.endCharacter_lt, hend⟩,
      plain_obj ⟨plain_nat h.startCharacter_lt, hstart⟩⟩
  · refine argumentsIn_target (isWord_fixCommand reason filename span) rfl ?_
    exact plain_obj ⟨hend, .str _, .str _, hstart⟩

/-- **The links of a failure carry their arguments.**  A failure with a place has the links that the
options ask for, and no others.  Whatever its reason and its file are, the dialects hand the links
on as they are, and the editor reads from them the place and the texts that they were made of. -/
theorem failure_links_carry {event : DiagnosticEvent} {range : SourceRange}
    (hrange : event.detail.bind EventDetail.errorRange? = some range) (hfits : range.Fits)
    (filename : String) (links : LinkOptions) :
    ∃ span, event.errorSpan? = some span ∧
      linksOf (failureSpans event filename links) =
        (if links.commandLinks then [(span.lines, revealCommand span)] else []) ++
          (if links.commandLinks && links.fixWithAi then
            [("Fix with AI", fixCommand event.reason filename span)]
          else []) ∧
      (∀ link ∈ linksOf (failureSpans event filename links), HandedOn link.1 link.2) ∧
      CarryPlace event.reason filename range span := by
  have hspan : event.errorSpan? = some (EventDetail.spanOf range) := by
    obtain ⟨detail, hdetail, hrange⟩ := Option.bind_eq_some_iff.mp hrange
    rw [DiagnosticEvent.errorSpan?, hdetail, Option.bind_some, EventDetail.errorSpan?, hrange,
      Option.map_some]
  have hlinks := linksOf_failureSpans hspan filename links
  refine ⟨_, hspan, hlinks, ?_, hfits.counts.carryPlace _ _⟩
  intro link hlink
  rw [hlinks] at hlink
  rcases List.mem_append.mp hlink with hlink | hlink
  · obtain rfl := List.mem_singleton.mp (List.mem_ite_nil_right.mp hlink).2
    exact handedOn (ErrorSpan.not_mem_lines _) (isWord_revealCommand _)
  · obtain rfl := List.mem_singleton.mp (List.mem_ite_nil_right.mp hlink).2
    have hlabel : ']' ∉ "Fix with AI".toList := by decide
    exact handedOn hlabel (isWord_fixCommand _ _ _)

/-- A failure whose reason closes links, quotes and escapes, from the first line to the last one
that is counted, in both links. -/
theorem hostile_reason_carried :
    let range : SourceRange :=
      { start := some { line := some 0, column := some 7 }
        finish := some { line := some 4294967295 } }
    let reason := "a\"b\\c) (d) %41 <e>\n\u0001👍"
    let event : DiagnosticEvent :=
      { detail := some { reason := some reason, loc := some range } }
    let span : ErrorSpan := ⟨0, 7, 4294967294, 0⟩
    linksOf (failureSpans event "ü%.tsx" ⟨true, true⟩) =
        [(span.lines, revealCommand span), ("Fix with AI", fixCommand reason "ü%.tsx" span)] ∧
      HandedOn "Fix with AI" (fixCommand reason "ü%.tsx" span) ∧
      argumentsIn (fixCommand reason "ü%.tsx" span).target = some (.obj
        [("endLine", .nat 4294967294), ("filename", .str "ü%.tsx"), ("reason", .str reason),
          ("startLine", .nat 0)]) ∧
      Text.numbersIn span.lines = [1, 4294967295] := by
  intro range reason event span
  have hfits : range.Fits := by
    constructor
    · rintro point ⟨⟩
      exact ⟨fun _ h => by cases h; decide, fun _ h => by cases h; decide, nofun⟩
    · rintro point ⟨⟩
      exact ⟨fun _ h => by cases h; decide, nofun, nofun⟩
  obtain ⟨span', hspan, hlinks, hhanded, hcarry⟩ :=
    failure_links_carry (show event.detail.bind EventDetail.errorRange? = some range from rfl) hfits
      "ü%.tsx" ⟨true, true⟩
  obtain rfl : span = span' := Option.some.inj hspan
  have hmem : ("Fix with AI", fixCommand reason "ü%.tsx" span) ∈
      linksOf (failureSpans event "ü%.tsx" ⟨true, true⟩) :=
    hlinks ▸ List.mem_cons_of_mem _ List.mem_cons_self
  exact ⟨hlinks, hhanded _ hmem, hcarry.fix, hcarry.label⟩

end MemoHints
