import MemoHints.Proofs.Hint.Html
import MemoHints.Proofs.Hint.Projection

/-!
# Tooltips in HTML hold whatever they are given

A tooltip is written as tags and texts (`Span.items`).  A reader finds these tags, with the targets
of their links, and between them these texts, whatever characters are in them
(`readsAs_renderSpans`).  So names, reasons and descriptions cannot add a tag, end one or change
one: the forms of the tags are a function of the links that are allowed and of which failures have a
description and a place (`forms_failures`).
-/

namespace MemoHints

namespace Html

/-- A piece of HTML as its writer means it. -/
inductive Item where
  | tag (t : Tag)
  | text (s : String)

namespace Item

/-- How a piece is written. -/
def html : Item → List Char
  | .tag t => '<' :: t.inside ++ ['>']
  | .text s => escaped s

def tag? : Item → Option Tag
  | .tag t => some t
  | .text _ => none

def isTag (item : Item) : Bool := item.tag?.isSome

/-- The text that a piece puts between tags. -/
def words : Item → String
  | .tag _ => ""
  | .text s => s

/-- A page with a piece before it. -/
def onto : Item → Page → Page
  | .tag t, page => { rest := (t.inside, page.lead) :: page.rest }
  | .text s, page => { lead := escaped s ++ page.lead, rest := page.rest }

/-- A text, or a tag whose name is a name. -/
def IsPlain (item : Item) : Prop := ∀ t ∈ item.tag?, t.IsPlain

end Item

/-- The texts before, between and after tags: each is all that is written there. -/
def textsBetween (items : List Item) : List String :=
  (Text.splitWhere Item.isTag items).map fun piece => String.join (piece.map Item.words)

variable {items : List Item}

/-- What is written piece by piece is read piece by piece. -/
theorem readText_items (h : ∀ item ∈ items, item.IsPlain) :
    readText (items.flatMap Item.html) = items.foldr Item.onto {} := by
  induction items with
  | nil => rfl
  | cons item items ih =>
    obtain ⟨hitem, hitems⟩ := List.forall_mem_cons.mp h
    rw [List.flatMap_cons, List.foldr_cons, ← ih hitems]
    cases item with
    | tag tag =>
      have hwritten : (Item.tag tag).html ++ items.flatMap Item.html =
          '<' :: tag.inside ++ '>' :: items.flatMap Item.html := by simp [Item.html]
      rw [hwritten, readText_tag (hitem tag rfl)]
      rfl
    | text s =>
      have hstart : '<' ∉ escaped s := fun hc => not_mem_specials_of_mem_escaped hc (by decide)
      exact readText_append hstart _

theorem tags_foldr (h : ∀ item ∈ items, item.IsPlain) :
    (items.foldr Item.onto {}).tags = items.filterMap Item.tag? := by
  induction items with
  | nil => rfl
  | cons item items ih =>
    obtain ⟨hitem, hitems⟩ := List.forall_mem_cons.mp h
    cases item with
    | tag tag =>
      have htags : (Item.tag tag :: items).filterMap Item.tag? = tag :: items.filterMap Item.tag? :=
        rfl
      rw [htags, ← ih hitems, List.foldr_cons, Item.onto, Page.tags, List.map_cons,
        Tag.ofInside_inside (hitem tag rfl)]
      rfl
    | text s =>
      rw [List.filterMap_cons_none rfl, ← ih hitems]
      rfl

theorem texts_foldr (items : List Item) :
    (items.foldr Item.onto {}).texts = textsBetween items := by
  induction items with
  | nil => rfl
  | cons item items ih =>
    rw [List.foldr_cons]
    generalize items.foldr Item.onto {} = page at ih
    obtain ⟨piece, more, hsplit⟩ :=
      List.exists_cons_of_ne_nil (Text.splitWhere_ne_nil Item.isTag items)
    simp only [textsBetween, Page.texts, hsplit, List.map_cons, List.cons.injEq] at ih
    obtain ⟨hlead, hrest⟩ := ih
    cases item with
    | tag tag =>
      simp only [Item.onto, Page.texts, textsBetween, Text.splitWhere, hsplit, Item.isTag,
        Item.tag?, Option.isSome_some, if_true, List.map_cons, hlead, hrest]
      rfl
    | text s =>
      simp only [Item.onto, Page.texts, textsBetween, Text.splitWhere, hsplit, Item.isTag,
        Item.tag?, Option.isSome_none, Bool.false_eq_true, if_false, List.map_cons, hrest,
        unescape_escaped, String.ofList_append, String.ofList_toList, hlead, String.join_cons,
        Item.words]

end Html

open Html

/-- The tags and texts that a span is written as. -/
def Span.items : Span → List Item
  | .text s => [.text s]
  | .bold s => [.tag ⟨"b", none⟩, .text s, .tag ⟨"/b", none⟩]
  | .link label command => [.tag ⟨"a", some command.target⟩, .text label, .tag ⟨"/a", none⟩]
  | .paragraphBreak => [.tag ⟨"br", none⟩, .tag ⟨"br", none⟩]
  | .divider => [.tag ⟨"hr", none⟩]

theorem Span.isPlain_items (span : Span) : ∀ item ∈ span.items, item.IsPlain := by
  cases span <;> simp [Span.items, Item.IsPlain, Item.tag?, Tag.IsPlain]

theorem Span.toList_render (span : Span) :
    (span.render .html).toList = span.items.flatMap Item.html := by
  cases span <;> simp [Span.render, Span.items, Item.html, Tag.inside]

/-- The tags and texts of a tooltip. -/
def itemsOf (spans : List Span) : List Item := spans.flatMap Span.items

theorem toList_renderSpans (spans : List Span) :
    (renderSpans .html spans).toList = (itemsOf spans).flatMap Item.html := by
  induction spans with
  | nil => rfl
  | cons span spans ih =>
    rw [renderSpans_cons, String.toList_append, ih, span.toList_render, itemsOf, itemsOf,
      List.flatMap_cons, List.flatMap_append]

/-- A text of HTML that a reader takes for spans. -/
structure ReadsAs (html : String) (spans : List Span) : Prop where
  /-- The tags are those of the spans, with the targets of their links. -/
  tags : (Html.read html).tags = (itemsOf spans).filterMap Item.tag?
  /-- Each text is what the spans have written there. -/
  texts : (Html.read html).texts = textsBetween (itemsOf spans)

/-- Spans are read as they were written. -/
theorem readsAs_renderSpans (spans : List Span) : ReadsAs (renderSpans .html spans) spans := by
  have hplain : ∀ item ∈ itemsOf spans, item.IsPlain := by
    intro item hitem
    obtain ⟨span, -, hitem⟩ := List.mem_flatMap.mp hitem
    exact span.isPlain_items item hitem
  have hread : Html.read (renderSpans .html spans) = (itemsOf spans).foldr Item.onto {} := by
    rw [Html.read, toList_renderSpans, readText_items hplain]
  exact ⟨by rw [hread, tags_foldr hplain], by rw [hread, texts_foldr]⟩

/-! ## Forms of tags -/

/-- A tag without the value of its `href`. -/
abbrev TagForm := String × Bool

def Html.Tag.form (tag : Html.Tag) : TagForm := (tag.name, tag.href.isSome)

/-- The forms of the tags in a text of HTML. -/
def formsOf (html : String) : List TagForm := (Html.read html).tags.map Html.Tag.form

def Span.forms (span : Span) : List TagForm := (span.items.filterMap Item.tag?).map Html.Tag.form

theorem formsOf_renderSpans (spans : List Span) :
    formsOf (renderSpans .html spans) = spans.flatMap Span.forms := by
  rw [formsOf, (readsAs_renderSpans spans).tags, itemsOf, List.filterMap_flatMap, List.map_flatMap]
  rfl

/-- What the tags of a failure depend on. -/
structure FailureShape where
  described : Bool
  placed : Bool
deriving DecidableEq

/-- Whether a failure has a description, which is then not empty, and a place. -/
def FailureShape.of (event : DiagnosticEvent) : FailureShape :=
  ⟨event.description?.isSome, event.errorSpan?.isSome⟩

def boldForms : List TagForm := [("b", false), ("/b", false)]

def breakForms : List TagForm := [("br", false), ("br", false)]

def linkForms : List TagForm := [("a", true), ("/a", false)]

def successForms (links : LinkOptions) : List TagForm :=
  boldForms ++ if links.commandLinks then breakForms ++ linkForms else []

def failureForms (links : LinkOptions) (shape : FailureShape) : List TagForm :=
  boldForms ++ (if shape.described then breakForms else []) ++
    if shape.placed then
      breakForms ++ (if links.commandLinks then linkForms else []) ++
        if links.commandLinks && links.fixWithAi then linkForms else []
    else []

def failuresForms (links : LinkOptions) : List FailureShape → List TagForm
  | [] => boldForms
  | first :: rest => boldForms ++ breakForms ++ failureForms links first ++
    rest.flatMap fun shape => ("hr", false) :: failureForms links shape

theorem forms_headline (emoji name verdict : String) :
    (headline emoji name verdict).flatMap Span.forms = boldForms := rfl

theorem forms_success (emoji name : String) (links : LinkOptions) :
    (successSpans emoji name links).flatMap Span.forms = successForms links := by
  rw [successSpans, List.flatMap_append, forms_headline, successForms]
  congr 1
  split <;> rfl

theorem forms_failure (event : DiagnosticEvent) (filename : String) (links : LinkOptions) :
    (failureSpans event filename links).flatMap Span.forms =
      failureForms links (FailureShape.of event) := by
  have hplace : ∀ span, (placeSpans event.reason filename links span).flatMap Span.forms =
      breakForms ++ (if links.commandLinks then linkForms else []) ++
        if links.commandLinks && links.fixWithAi then linkForms else [] := by
    intro span
    rw [placeSpans, List.flatMap_append, List.flatMap_append]
    congr 1
    · congr 1
      split <;> rfl
    · split <;> rfl
  rw [failureSpans, List.flatMap_append, List.flatMap_append, failureForms, FailureShape.of]
  congr 1
  · congr 1
    cases event.description? <;> rfl
  · cases event.errorSpan? with
    | none => rfl
    | some span => exact hplace span

theorem forms_failures (emoji name filename : String) (events : List DiagnosticEvent)
    (links : LinkOptions) :
    (failuresSpans emoji name events filename links).flatMap Span.forms =
      failuresForms links (events.map FailureShape.of) := by
  rw [failuresSpans, List.flatMap_append, forms_headline]
  cases events with
  | nil => rfl
  | cons first rest =>
    have hrest :
        (rest.flatMap fun event => Span.divider :: failureSpans event filename links).flatMap
          Span.forms = (rest.map FailureShape.of).flatMap
            fun shape => ("hr", false) :: failureForms links shape := by
      rw [List.flatMap_assoc, List.flatMap_map]
      refine List.flatMap_congr fun event _ => ?_
      rw [List.flatMap_cons, forms_failure]
      rfl
    rw [failureSections, List.flatMap_append, List.flatMap_append, forms_failure, hrest,
      List.map_cons, failuresForms]
    simp only [List.append_assoc]
    rfl

/-! ## What a tooltip holds -/

/-- A text that may stand between tags or in quotes, and is not lost there. -/
structure EscapesText (s : String) : Prop where
  not_special : ∀ c ∈ (escapeHtml s).toList, c ∉ specials
  entity : ∀ post, '&' :: post <:+ (escapeHtml s).toList →
    ∃ entity ∈ entities, entity <+: '&' :: post
  unescape_eq : unescape (escapeHtml s).toList = s.toList

theorem escapesText (s : String) : EscapesText s where
  not_special c hc := by
    rw [toList_escapeHtml] at hc
    exact not_mem_specials_of_mem_escaped hc
  entity post h := by
    rw [toList_escapeHtml] at h
    exact entity_prefix_of_suffix h
  unescape_eq := by
    rw [toList_escapeHtml]
    simpa [unescape] using unescape_escaped s []

/-- **Tooltips in HTML are not broken by their data.**  Two calls whose failures have the same
shapes have the same tags, up to the targets of links. -/
theorem html_tooltips_hold (links : LinkOptions) (emoji name filename : String)
    {events : List DiagnosticEvent} (emoji' name' filename' : String)
    {events' : List DiagnosticEvent}
    (hshape : events'.map FailureShape.of = events.map FailureShape.of) :
    let success := successSpans emoji name links
    let failures := failuresSpans emoji name events filename links
    (ReadsAs (renderSpans .html success) success ∧
        formsOf (renderSpans .html success) = successForms links) ∧
      (ReadsAs (renderSpans .html failures) failures ∧
        formsOf (renderSpans .html failures) = failuresForms links (events.map FailureShape.of)) ∧
      formsOf (renderSpans .html (successSpans emoji' name' links)) =
        formsOf (renderSpans .html success) ∧
      formsOf (renderSpans .html (failuresSpans emoji' name' events' filename' links)) =
        formsOf (renderSpans .html failures) ∧
      ∀ s, EscapesText s := by
  intro success failures
  have hsuccess : ∀ emoji name, formsOf (renderSpans .html (successSpans emoji name links)) =
      successForms links := fun emoji name => by rw [formsOf_renderSpans, forms_success]
  have hfailures : ∀ emoji name events filename,
      formsOf (renderSpans .html (failuresSpans emoji name events filename links)) =
        failuresForms links (events.map FailureShape.of) := fun emoji name events filename => by
    rw [formsOf_renderSpans, forms_failures]
  refine ⟨⟨readsAs_renderSpans _, hsuccess _ _⟩, ⟨readsAs_renderSpans _, hfailures _ _ _ _⟩, ?_, ?_,
    escapesText⟩
  · rw [hsuccess, hsuccess]
  · rw [hfailures, hfailures, hshape]

/-- Markup in the data of a failure, and plain words in its place. -/
theorem markup_in_failure_held :
    let marked : DiagnosticEvent :=
      { detail := some { reason := some "</b><hr>", description := some "\"'&lt;" } }
    let plain : DiagnosticEvent :=
      { detail := some { reason := some "x", description := some "y" } }
    let html := renderSpans .html (failuresSpans "<" "&" [marked] "\">" {})
    [plain].map FailureShape.of = [marked].map FailureShape.of ∧
      (Html.read html).tags = [⟨"b", none⟩, ⟨"/b", none⟩, ⟨"br", none⟩, ⟨"br", none⟩, ⟨"b", none⟩,
        ⟨"/b", none⟩, ⟨"br", none⟩, ⟨"br", none⟩] ∧
      (Html.read html).texts = ["< ", "&", " hasn't been memoized by React Compiler.", "", "",
        "Reason:", " </b><hr>", "", "\"'&lt;"] ∧
      formsOf (renderSpans .html (failuresSpans "" "" [plain] "" {})) = formsOf html := by
  intro marked plain html
  have hshape : [plain].map FailureShape.of = [marked].map FailureShape.of := by decide
  obtain ⟨-, ⟨hread, -⟩, -, hforms, -⟩ := html_tooltips_hold {} "<" "&" "\">" "" "" "" hshape
  refine ⟨hshape, hread.tags.trans ?_, hread.texts.trans ?_, hforms⟩
  · rfl
  · decide

end MemoHints
