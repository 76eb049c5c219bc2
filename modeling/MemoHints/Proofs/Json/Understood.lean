import MemoHints.Proofs.Json.Accepted

/-!
# What the reader understands

Whatever denotes a value is read as that value (`readInput_of_holds`), so the reader takes exactly
the texts of the grammar (`readInput_eq_some_iff`, `read_eq_some_iff`), and a text has one value.

A value is read in front of a rest, of which only one thing is asked: that it does not go on with a
number (`EndsNumber`), since the digits of a number could be taken to end at any of them.  Two steps
for each character of the value are enough.
-/

namespace MemoHints.Json

/-- Input that does not go on with a number. -/
def EndsNumber (rest : Input) : Prop :=
  ∀ c, rest.head? = some (some c) → c.isDigit = false ∧ c ≠ '.' ∧ c ≠ 'e' ∧ c ≠ 'E'

theorem ends_of_isSpace {c : Char} (h : isSpace (some c) = true) :
    c.isDigit = false ∧ c ≠ '.' ∧ c ≠ 'e' ∧ c ≠ 'E' := by
  unfold isSpace at h
  split at h
  case h_5 => cases h
  all_goals
    next heq =>
      cases heq
      decide

theorem endsNumber_of_isSpace {space : Input} (h : IsSpace space) : EndsNumber space :=
  fun _ hc => ends_of_isSpace (h _ (List.mem_of_mem_head? hc))

/-- After a value stands space or a mark. -/
theorem endsNumber_append {space : Input} (h : IsSpace space) {c : Char}
    (hc : c ∈ [',', ']', '\x7d']) (rest : Input) : EndsNumber (space ++ some c :: rest) := by
  intro d hd
  cases space with
  | nil =>
    obtain rfl := Option.some.inj (Option.some.inj hd)
    simp only [List.mem_cons, List.not_mem_nil, or_false] at hc
    rcases hc with rfl | rfl | rfl <;> decide
  | cons x space =>
    obtain rfl := Option.some.inj hd
    exact ends_of_isSpace (List.forall_mem_cons.mp h).1

/-- Nothing of a value is passed over as space. -/
theorem skipSpace_append_cons {space : Input} (h : IsSpace space) {c : Char}
    (hc : isSpace (some c) = false) (rest : Input) :
    skipSpace (space ++ some c :: rest) = some c :: rest := by
  rw [skipSpace_append h, skipSpace, List.dropWhile_cons_of_neg (by simp [hc])]

/-! ## Numbers -/

section Numbers

variable {rest : Input}

theorem digits_append {cs : List Char} (h : ∀ c ∈ cs, c.isDigit = true)
    (hrest : ∀ c, rest.head? = some (some c) → c.isDigit = false) :
    digits (cs.map some ++ rest) = (cs.map (·.toNat - 48), rest) := by
  induction cs with
  | nil =>
    match rest with
    | [] | none :: _ => rfl
    | some c :: _ => simp [digits, hrest c rfl]
  | cons c cs ih =>
    obtain ⟨hc, hcs⟩ := List.forall_mem_cons.mp h
    simp only [List.map_cons, List.cons_append, digits, hc, if_true, ih hcs]

namespace Digits

variable (ds : Digits)

theorem digits_chars (hrest : ∀ c, rest.head? = some (some c) → c.isDigit = false) :
    digits (ds.chars.map some ++ rest) = (ds.values, rest) := digits_append ds.isDigit hrest

theorem values_ne_nil : ds.values ≠ [] := by simp [values, ds.ne_nil]

theorem exists_chars : ∃ c cs, ds.chars = c :: cs ∧ c.isDigit = true := by
  obtain ⟨c, cs, hcs⟩ := List.exists_cons_of_ne_nil ds.ne_nil
  exact ⟨c, cs, hcs, ds.isDigit c (hcs ▸ List.mem_cons_self)⟩

end Digits

theorem fraction?_append (ds : Option Digits)
    (hrest : ∀ c, rest.head? = some (some c) → c.isDigit = false ∧ c ≠ '.') :
    fraction? (((ds.map ('.' :: ·.chars)).getD []).map some ++ rest) =
      some (ds.map (·.values), rest) := by
  cases ds with
  | none =>
    match rest with
    | [] | none :: _ => rfl
    | some c :: _ =>
      have hc := (hrest c rfl).2
      simp only [Option.map_none, Option.getD_none, List.map_nil, List.nil_append]
      rw [fraction?]
      simp_all
  | some ds =>
    simp only [Option.map_some, Option.getD_some, List.map_cons, List.cons_append, fraction?,
      ds.digits_chars fun c hc => (hrest c hc).1]
    split
    next heq => exact absurd heq (by simp [ds.values_ne_nil])
    next heq =>
      cases heq
      rfl

theorem exponent?_append (e : Option Exponent) (hrest : EndsNumber rest) :
    exponent? (((e.map (·.chars)).getD []).map some ++ rest) = some (e.map (·.value), rest) := by
  cases e with
  | none =>
    match rest with
    | [] | none :: _ => rfl
    | some c :: _ => simp [exponent?, (hrest c rfl).2.2]
  | some e =>
    obtain ⟨mark, sign, ds, hmark, hsign⟩ := e
    have hmark : mark = 'e' ∨ mark = 'E' := by simpa using hmark
    have hdigits := ds.digits_chars fun c hc => (hrest c hc).1
    obtain ⟨c, cs, hcs, hc⟩ := ds.exists_chars
    obtain ⟨d, values, hvalues⟩ := List.exists_cons_of_ne_nil ds.values_ne_nil
    simp only [List.mem_cons, List.not_mem_nil, or_false] at hsign
    rcases hsign with rfl | rfl | rfl
    · -- a digit is no sign
      have hminus : c ≠ '-' := by
        rintro rfl
        exact absurd hc (by decide)
      have hplus : c ≠ '+' := by
        rintro rfl
        exact absurd hc (by decide)
      rw [hcs, List.map_cons, List.cons_append] at hdigits
      simp [exponent?, hmark, Exponent.chars, Exponent.value, hcs, hminus, hplus, hdigits, hvalues]
    · simp [exponent?, hmark, Exponent.chars, Exponent.value, hdigits, hvalues]
    · simp [exponent?, hmark, Exponent.chars, Exponent.value, hdigits, hvalues]

theorem eq_zero_of_isDigit {c : Char} (h : c.isDigit = true) (hzero : c.toNat - 48 = 0) :
    c = '0' := by
  simp only [Char.isDigit, Bool.and_eq_true, decide_eq_true_eq, ge_iff_le,
    UInt32.le_iff_toNat_le] at h
  have hlow : 48 ≤ c.toNat := h.1
  exact Char.toNat_inj.mp (show c.toNat = 48 by omega)

/-- A number after its sign is read as it is written. -/
theorem number_append (n : Numeral) (hrest : EndsNumber rest) (wanted : Bool) :
    number wanted n.negative (n.unsigned.map some ++ rest) =
      if wanted then n.value?.map (·, rest) else some (.null, rest) := by
  obtain ⟨negative, whole, frac, exp, hleading⟩ := n
  have hexp : ∀ c, (((exp.map (·.chars)).getD []).map some ++ rest).head? = some (some c) →
      c.isDigit = false ∧ c ≠ '.' := by
    intro c hc
    cases exp with
    | none => exact ⟨(hrest c hc).1, (hrest c hc).2.1⟩
    | some e =>
      have hmark : e.mark = 'e' ∨ e.mark = 'E' := by simpa using e.mark_mem
      obtain rfl : e.mark = c := Option.some.inj (Option.some.inj hc)
      rcases hmark with h | h <;> rw [h] <;> decide
  have hfrac : ∀ c, (((frac.map ('.' :: ·.chars)).getD []).map some ++
      (((exp.map (·.chars)).getD []).map some ++ rest)).head? = some (some c) →
      c.isDigit = false := by
    intro c hc
    cases frac with
    | none => exact (hexp c hc).1
    | some ds =>
      obtain rfl : '.' = c := Option.some.inj (Option.some.inj hc)
      decide
  simp only [number, Numeral.unsigned, List.map_append, List.append_assoc,
    whole.digits_chars hfrac, fraction?_append frac hexp, exponent?_append exp hrest,
    Option.bind_eq_bind, Option.bind_some]
  split
  next heq => exact absurd heq whole.values_ne_nil
  next heq =>
    -- of several digits the first is not zero
    obtain ⟨c, cs, hcs, hc⟩ := whole.exists_chars
    rw [Digits.values, hcs, List.map_cons] at heq
    obtain ⟨hzero, hmore⟩ := List.cons.inj heq
    have hone := hleading (by rw [hcs, eq_zero_of_isDigit hc hzero]; rfl)
    rw [hcs] at hone
    obtain ⟨-, rfl⟩ := List.cons.inj hone
    cases hmore
  next =>
    cases wanted with
    | false => rfl
    | true =>
      simp only [Numeral.value?, if_true]
      cases number? negative whole.values (frac.map (·.values)) (exp.map (·.value)) <;> rfl

end Numbers

/-! ## Strings -/

section Strings

variable {rest : Input} {ps : List Piece}

theorem pieces_append {piece : Piece} {cs : Input} (h : piece.Spelled cs) (rest : Input) :
    pieces (cs ++ rest) = (pieces rest).map fun found => (piece :: found.1, found.2) := by
  cases h with
  | @plain c hcontrol hquote hback =>
    rw [List.singleton_append, pieces]
    · simp only [hcontrol, if_false, Option.bind_eq_bind]
      cases pieces rest <;> rfl
    · simp [hquote]
    all_goals simp [hback]
  | broken =>
    rw [List.singleton_append, pieces]
    cases pieces rest <;> rfl
  | @escape e c h =>
    have hu : e ≠ 'u' := by
      rintro rfl
      cases h
    rw [List.cons_append, List.singleton_append, pieces]
    · simp only [h, Option.bind_eq_bind, Option.bind_some]
      cases pieces rest <;> rfl
    · intro a b c d rest heq
      simp_all
  | number ha hb hc hd =>
    simp only [List.cons_append, List.nil_append, pieces, List.foldlM_cons, List.foldlM_nil, ha, hb,
      hc, hd, Option.bind_eq_bind, Option.bind_some, Option.pure_def, Nat.zero_mul, Nat.zero_add]
    cases pieces rest <;> rfl

theorem pieces_of_spell {inner : Input} (h : Spell ps inner) (rest : Input) :
    pieces (inner ++ some '"' :: rest) = some (ps, rest) := by
  induction h with
  | nil => rw [List.nil_append, pieces]
  | cons hpiece _ ih => rw [List.append_assoc, pieces_append hpiece, ih, Option.map_some]

theorem joinPieces_unit {n : Nat} (h : n < 0xD800 ∨ 0xE000 ≤ n) (ps : List Piece) :
    joinPieces (.unit n :: ps) = (joinPieces ps).map (Char.ofNat n :: ·) := by
  have hhigh : ¬ (0xD800 ≤ n ∧ n < 0xDC00) := by omega
  have hlow : ¬ (0xDC00 ≤ n ∧ n < 0xE000) := by omega
  have hhalf : ¬ (0xD800 ≤ n ∧ n < 0xE000) := by omega
  rw [joinPieces.eq_def]
  split
  next heq => cases heq
  next heq => cases heq
  next heq =>
    cases heq
    simp only [hhigh, hlow, if_false, Option.bind_eq_bind]
    cases joinPieces (.unit _ :: _) <;> rfl
  next heq =>
    cases heq
    simp only [hhalf, if_false, Option.bind_eq_bind]
    cases joinPieces ps <;> rfl

theorem joinPieces_of_joined {cs : List Char} (h : Joined ps cs) : joinPieces ps = some cs := by
  induction h with
  | nil => rw [joinPieces]
  | char _ ih => simp [joinPieces, ih]
  | unit h _ ih => rw [joinPieces_unit h, ih, Option.map_some]
  | pair hn hm _ ih => simp [joinPieces, hn, hm, ih]

/-- A string after its opening quote is read as it is written. -/
theorem string_of_denotes {wanted : Bool} {body : Input} {s : String}
    (h : DenotesString wanted body s) (rest : Input) :
    ∃ inner, body = some '"' :: inner ∧ string wanted (inner ++ rest) = some (s, rest) := by
  obtain ⟨ps, inner, hspell, rfl, htext⟩ := h
  refine ⟨inner ++ [some '"'], rfl, ?_⟩
  rw [List.append_assoc, List.singleton_append, string, pieces_of_spell hspell]
  cases wanted with
  | false =>
    obtain rfl : s = "" := htext
    rfl
  | true => simp [joinPieces_of_joined htext]

end Strings

/-! ## Values -/

section Values

variable {want : Interest} {depth : Nat} {body : Input} {v : Json}

theorem not_isSpace_of_isDigit {c : Char} (h : c.isDigit = true) : isSpace (some c) = false := by
  unfold isSpace
  split
  case h_5 => rfl
  all_goals
    next heq =>
      cases heq
      exact absurd h (by decide)

theorem value_digit {c : Char} (h : c.isDigit = true) {space : Input} (hspace : IsSpace space)
    (fuel : Nat) (want : Interest) (depth : Nat) (rest : Input) :
    value (fuel + 1) want depth (space ++ some c :: rest) =
      number want.any false (some c :: rest) := by
  simp only [value, skipSpace_append_cons hspace (not_isSpace_of_isDigit h)]
  split
  case h_8 => rfl
  all_goals
    next heq =>
      cases heq
      exact absurd h (by decide)

/-- A value opens with a character of its own. -/
theorem Denotes.exists_cons (h : Denotes want depth body v) :
    ∃ c more, body = some c :: more ∧ isSpace (some c) = false ∧ c ≠ ']' := by
  cases h with
  | null => exact ⟨_, _, rfl, rfl, by decide⟩
  | bool b => cases b <;> exact ⟨_, _, rfl, rfl, by decide⟩
  | number h =>
    obtain ⟨n, rfl, -⟩ := h
    unfold Numeral.chars
    split
    · exact ⟨_, _, rfl, rfl, by decide⟩
    · obtain ⟨c, cs, hcs, hc⟩ := n.whole.exists_chars
      refine ⟨c, _, by rw [Numeral.unsigned, hcs]; rfl, not_isSpace_of_isDigit hc, ?_⟩
      rintro rfl
      exact absurd hc (by decide)
  | string h =>
    obtain ⟨ps, inner, -, rfl, -⟩ := h
    exact ⟨_, _, rfl, rfl, by decide⟩
  | noItems => exact ⟨_, _, rfl, rfl, by decide⟩
  | items => exact ⟨_, _, rfl, rfl, by decide⟩
  | noMembers => exact ⟨_, _, rfl, rfl, by decide⟩
  | members => exact ⟨_, _, rfl, rfl, by decide⟩

/-- A value that is read wherever it stands. -/
def Understood (want : Interest) (depth : Nat) (body : Input) (v : Json) : Prop :=
  ∀ {space rest : Input} {fuel : Nat}, IsSpace space → EndsNumber rest → 2 * body.length ≤ fuel →
    value fuel want depth (space ++ (body ++ rest)) = some (v, rest)

theorem understood_number (h : DenotesNumber want.any body v) : Understood want depth body v := by
  intro space rest fuel hspace hrest hfuel
  obtain ⟨n, rfl, hvalue⟩ := h
  have hnumber := number_append n hrest want.any
  have hresult : (if want.any then n.value?.map (·, rest) else some (.null, rest)) =
      some (v, rest) := by
    split at hvalue
    next hwanted => rw [if_pos hwanted, hvalue, Option.map_some]
    next hwanted => rw [if_neg hwanted, hvalue]
  rw [hresult] at hnumber
  obtain ⟨c, cs, hcs, hc⟩ := n.whole.exists_chars
  have hunsigned : n.unsigned = c :: (n.unsigned.drop 1) := by rw [Numeral.unsigned, hcs]; rfl
  obtain ⟨fuel, rfl⟩ : ∃ k, fuel = k + 1 := by
    refine ⟨fuel - 1, ?_⟩
    rw [List.length_map, Numeral.chars] at hfuel
    split at hfuel
    all_goals
      rw [hunsigned] at hfuel
      simp only [List.length_cons] at hfuel
      omega
  rw [Numeral.chars]
  cases hnegative : n.negative with
  | true =>
    rw [hnegative] at hnumber
    rw [if_pos rfl, List.map_cons, List.cons_append, value, skipSpace_append_cons hspace rfl]
    simp only [hnumber]
  | false =>
    rw [hnegative, hunsigned, List.map_cons, List.cons_append] at hnumber
    rw [if_neg Bool.false_ne_true, hunsigned, List.map_cons, List.cons_append,
      value_digit hc hspace, hnumber]

/-- The text of an item is read in front of the mark that follows it. -/
theorem Padded.value_whole {p : Padded} (h : Understood want depth p.body v) {c : Char}
    (hc : c ∈ [',', ']', '\x7d']) (rest : Input) {fuel : Nat} (hfuel : 2 * p.whole.length ≤ fuel) :
    value fuel want depth (p.whole ++ some c :: rest) =
      some (v, p.back ++ some c :: rest) := by
  have hlength : p.body.length ≤ p.whole.length := by
    simp only [Padded.whole, List.length_append]
    omega
  have hread : value fuel want depth (p.front ++ (p.body ++ (p.back ++ some c :: rest))) =
      some (v, p.back ++ some c :: rest) :=
    h p.front_isSpace (endsNumber_append p.back_isSpace hc rest) (by omega)
  rw [← hread]
  simp [Padded.whole]

theorem items_of_understood {xs : List Item} (hne : xs ≠ []) {index fuel : Nat}
    (h : ∀ i x, xs[i]? = some x →
      Understood (want.ofItem (index + i)) depth x.text.body x.value)
    (hfuel : 2 * (commas (xs.map (·.text.whole))).length + 1 ≤ fuel) (rest : Input) :
    items fuel want depth index (commas (xs.map (·.text.whole)) ++ some ']' :: rest) =
      some (xs.map (·.value), rest) := by
  induction xs generalizing index fuel with
  | nil => exact absurd rfl hne
  | cons x xs ih =>
    have hx : Understood (want.ofItem index) depth x.text.body x.value := h 0 x rfl
    obtain ⟨fuel, rfl⟩ : ∃ k, fuel = k + 1 := ⟨fuel - 1, by omega⟩
    by_cases hxs : xs = []
    · subst hxs
      rw [List.map_singleton, commas_singleton] at hfuel ⊢
      rw [items, Padded.value_whole hx (by decide) rest (by omega)]
      simp only [skipSpace_append_cons x.text.back_isSpace (c := ']') rfl, Option.bind_eq_bind,
        Option.bind_some, List.map_singleton]
    · have hlater : ∀ i y, xs[i]? = some y →
          Understood (want.ofItem (index + 1 + i)) depth y.text.body y.value := by
        intro i y hy
        rw [Nat.add_right_comm]
        exact h (i + 1) y hy
      rw [List.map_cons, commas_cons (by simpa using hxs)] at hfuel ⊢
      simp only [List.length_append, List.length_cons] at hfuel
      rw [List.append_assoc, List.cons_append, items,
        Padded.value_whole hx (by decide) _ (by omega)]
      simp only [skipSpace_append_cons x.text.back_isSpace (c := ',') rfl,
        ih hxs hlater (show _ ≤ fuel by omega), Option.bind_eq_bind, Option.bind_some,
        List.map_cons]

/-- A member is read up to the mark that follows it. -/
theorem members_whole {m : Member} (hlabel : DenotesString want.any m.label.body m.name)
    (hvalue : Understood (want.ofMember m.name) depth m.text.body m.value) {fuel : Nat}
    (hfuel : 2 * m.whole.length ≤ fuel) {c : Char} (hc : c = ',' ∨ c = '\x7d') (rest : Input) :
    members (fuel + 1) want depth (m.whole ++ some c :: rest) =
      if c = ',' then
        (members fuel want depth rest).map fun more => (kept want [m] ++ more.1, more.2)
      else some (kept want [m], rest) := by
  have hlength : m.whole.length = m.label.whole.length + (m.text.whole.length + 1) := by
    simp [Member.whole]
  obtain ⟨inner, hbody, hstring⟩ := string_of_denotes hlabel
    (m.label.back ++ some ':' :: (m.text.whole ++ some c :: rest))
  have hwhole : m.whole ++ some c :: rest = m.label.front ++ some '"' ::
      (inner ++ (m.label.back ++ some ':' :: (m.text.whole ++ some c :: rest))) := by
    simp [Member.whole, Padded.whole, hbody]
  have hread : value fuel (want.ofMember m.name) depth (m.text.whole ++ some c :: rest) =
      some (m.value, m.text.back ++ some c :: rest) :=
    Padded.value_whole hvalue (by rcases hc with rfl | rfl <;> decide) rest (by omega)
  rw [hwhole, members, skipSpace_append_cons m.label.front_isSpace rfl]
  simp only [hstring, Option.bind_eq_bind, Option.bind_some, hread,
    skipSpace_append_cons m.label.back_isSpace (c := ':') rfl]
  rcases hc with rfl | rfl
  · simp only [skipSpace_append_cons m.text.back_isSpace (c := ',') rfl, if_true, kept_cons,
      kept_nil, List.append_nil]
    cases members fuel want depth rest <;> rfl
  · simp only [skipSpace_append_cons m.text.back_isSpace (c := '\x7d') rfl, kept_cons, kept_nil,
      List.append_nil]
    rfl

theorem members_of_understood {ms : List Member} (hne : ms ≠ []) {fuel : Nat}
    (hlabels : ∀ m ∈ ms, DenotesString want.any m.label.body m.name)
    (hvalues : ∀ m ∈ ms, Understood (want.ofMember m.name) depth m.text.body m.value)
    (hfuel : 2 * (commas (ms.map Member.whole)).length + 1 ≤ fuel) (rest : Input) :
    members fuel want depth (commas (ms.map Member.whole) ++ some '\x7d' :: rest) =
      some (kept want ms, rest) := by
  induction ms generalizing fuel with
  | nil => exact absurd rfl hne
  | cons m ms ih =>
    obtain ⟨hlabel, hlabels⟩ := List.forall_mem_cons.mp hlabels
    obtain ⟨hvalue, hvalues⟩ := List.forall_mem_cons.mp hvalues
    obtain ⟨fuel, rfl⟩ : ∃ k, fuel = k + 1 := ⟨fuel - 1, by omega⟩
    by_cases hms : ms = []
    · subst hms
      rw [List.map_singleton, commas_singleton] at hfuel ⊢
      rw [members_whole hlabel hvalue (by omega) (.inr rfl), if_neg (by decide)]
    · rw [List.map_cons, commas_cons (by simpa using hms)] at hfuel ⊢
      simp only [List.length_append, List.length_cons] at hfuel
      rw [List.append_assoc, List.cons_append,
        members_whole hlabel hvalue (by omega) (.inl rfl), if_pos rfl,
        ih hms hlabels hvalues (by omega), Option.map_some]
      simp

/-- The opening bracket of a list or record takes a step, and is in bounds when it is wanted. -/
theorem Room.bounds (hroom : Room want depth) :
    (want.any && decide (maxDepth ≤ depth)) = false := by
  cases hany : want.any with
  | false => rfl
  | true => exact decide_eq_false (Nat.not_le.mpr (hroom hany))

/-- The first thing after the space in front of texts with commas is the first of them. -/
theorem exists_skipSpace_commas {front : Input} (hfront : IsSpace front) {c : Char}
    (hc : isSpace (some c) = false) (more : Input) (texts : List Input) (rest : Input) :
    ∃ after, skipSpace (commas ((front ++ some c :: more) :: texts) ++ rest) = some c :: after := by
  by_cases h : texts = []
  · subst h
    rw [commas_singleton, List.append_assoc, List.cons_append]
    exact ⟨_, skipSpace_append_cons hfront hc _⟩
  · rw [commas_cons h, List.append_assoc, List.append_assoc, List.cons_append]
    exact ⟨_, skipSpace_append_cons hfront hc _⟩

theorem understood_items {xs : List Item} (hroom : Room want depth) (hne : xs ≠ [])
    (h : ∀ x ∈ xs, ∃ c more,
      x.text.body = some c :: more ∧ isSpace (some c) = false ∧ c ≠ ']')
    (hread : ∀ i x, xs[i]? = some x →
      Understood (want.ofItem i) (depth + 1) x.text.body x.value) :
    Understood want depth (some '[' :: (commas (xs.map (·.text.whole)) ++ [some ']']))
      (.arr (xs.map (·.value))) := by
  intro space rest fuel hspace hrest hfuel
  simp only [List.length_cons, List.length_append, List.length_nil] at hfuel
  obtain ⟨fuel, rfl⟩ : ∃ k, fuel = k + 1 := ⟨fuel - 1, by omega⟩
  have hitems : items fuel want (depth + 1) 0
      (commas (xs.map (·.text.whole)) ++ some ']' :: rest) = some (xs.map (·.value), rest) :=
    items_of_understood hne (by simpa only [Nat.zero_add] using hread) (by omega) rest
  obtain ⟨x, xs, rfl⟩ := List.exists_cons_of_ne_nil hne
  obtain ⟨c, more, hbody, hc, hclose⟩ := h x List.mem_cons_self
  obtain ⟨after, hafter⟩ := exists_skipSpace_commas x.text.front_isSpace hc (more ++ x.text.back)
    (xs.map (·.text.whole)) (some ']' :: rest)
  have hwhole : x.text.front ++ some c :: (more ++ x.text.back) = x.text.whole := by
    simp [Padded.whole, hbody]
  rw [hwhole] at hafter
  change skipSpace (commas ((x :: xs).map (·.text.whole)) ++ some ']' :: rest) = _ at hafter
  rw [← items_skipSpace, hafter] at hitems
  rw [List.cons_append, List.append_assoc, List.singleton_append, value,
    skipSpace_append_cons hspace rfl]
  simp only [hroom.bounds, Bool.false_eq_true, if_false, hafter]
  split
  next heq =>
    cases heq
    exact absurd rfl hclose
  next => rw [hitems, Option.bind_eq_bind, Option.bind_some]

theorem understood_members {ms : List Member} (hroom : Room want depth) (hne : ms ≠ [])
    (hlabels : ∀ m ∈ ms, DenotesString want.any m.label.body m.name)
    (hread : ∀ m ∈ ms, Understood (want.ofMember m.name) (depth + 1) m.text.body m.value) :
    Understood want depth (some '\x7b' :: (commas (ms.map Member.whole) ++ [some '\x7d']))
      (.obj (kept want ms)) := by
  intro space rest fuel hspace hrest hfuel
  simp only [List.length_cons, List.length_append, List.length_nil] at hfuel
  obtain ⟨fuel, rfl⟩ : ∃ k, fuel = k + 1 := ⟨fuel - 1, by omega⟩
  have hmembers : members fuel want (depth + 1)
      (commas (ms.map Member.whole) ++ some '\x7d' :: rest) = some (kept want ms, rest) :=
    members_of_understood hne hlabels hread (by omega) rest
  obtain ⟨m, ms, rfl⟩ := List.exists_cons_of_ne_nil hne
  obtain ⟨-, inner, -, hbody, -⟩ := hlabels m List.mem_cons_self
  obtain ⟨after, hafter⟩ := exists_skipSpace_commas m.label.front_isSpace (c := '"') rfl
    (inner ++ [some '"'] ++ m.label.back ++ some ':' :: m.text.whole) (ms.map Member.whole)
    (some '\x7d' :: rest)
  have hwhole : m.label.front ++ some '"' ::
      (inner ++ [some '"'] ++ m.label.back ++ some ':' :: m.text.whole) = m.whole := by
    simp [Member.whole, Padded.whole, hbody]
  rw [hwhole, ← List.map_cons] at hafter
  rw [← members_skipSpace, hafter] at hmembers
  rw [List.cons_append, List.append_assoc, List.singleton_append, value,
    skipSpace_append_cons hspace rfl]
  simp only [hroom.bounds, Bool.false_eq_true, if_false, hafter]
  split
  next heq => cases heq
  next => rw [hmembers, Option.bind_eq_bind, Option.bind_some]

/-- Whatever denotes a value is read as that value. -/
theorem understood (h : Denotes want depth body v) : Understood want depth body v := by
  induction h with
  | null =>
    intro space rest fuel hspace hrest hfuel
    obtain ⟨fuel, rfl⟩ : ∃ k, fuel = k + 1 := ⟨fuel - 1, by simp at hfuel; omega⟩
    simp only [List.map_cons, List.cons_append, value, skipSpace_append_cons hspace (c := 'n') rfl]
    rfl
  | bool b =>
    intro space rest fuel hspace hrest hfuel
    obtain ⟨fuel, rfl⟩ : ∃ k, fuel = k + 1 := by
      cases b <;> exact ⟨fuel - 1, by simp [boolWord] at hfuel; omega⟩
    cases b with
    | false =>
      simp only [boolWord, List.map_cons, List.cons_append, value,
        skipSpace_append_cons hspace (c := 'f') rfl]
      rfl
    | true =>
      simp only [boolWord, List.map_cons, List.cons_append, value,
        skipSpace_append_cons hspace (c := 't') rfl]
      rfl
  | number h => exact understood_number h
  | string h =>
    intro space rest fuel hspace hrest hfuel
    obtain ⟨inner, rfl, hread⟩ := string_of_denotes h rest
    obtain ⟨fuel, rfl⟩ : ∃ k, fuel = k + 1 := ⟨fuel - 1, by simp at hfuel; omega⟩
    rw [List.cons_append, value, skipSpace_append_cons hspace rfl]
    simp only [hread, Option.bind_eq_bind, Option.bind_some]
  | @noItems want depth inner hroom hinner =>
    intro space rest fuel hspace hrest hfuel
    obtain ⟨fuel, rfl⟩ : ∃ k, fuel = k + 1 := ⟨fuel - 1, by simp at hfuel; omega⟩
    rw [List.cons_append, List.append_assoc, value, skipSpace_append_cons hspace rfl]
    simp only [hroom.bounds, Bool.false_eq_true, if_false, List.cons_append, List.nil_append,
      skipSpace_append_cons hinner (c := ']') rfl]
  | items hroom hne h ih =>
    refine understood_items hroom hne (fun x hx => ?_) ih
    obtain ⟨i, hi⟩ := List.mem_iff_getElem?.mp hx
    exact (h i x hi).exists_cons
  | @noMembers want depth inner hroom hinner =>
    intro space rest fuel hspace hrest hfuel
    obtain ⟨fuel, rfl⟩ : ∃ k, fuel = k + 1 := ⟨fuel - 1, by simp at hfuel; omega⟩
    rw [List.cons_append, List.append_assoc, value, skipSpace_append_cons hspace rfl]
    simp only [hroom.bounds, Bool.false_eq_true, if_false, List.cons_append, List.nil_append,
      skipSpace_append_cons hinner (c := '\x7d') rfl]
  | members hroom hne hlabels hvalues ih => exact understood_members hroom hne hlabels ih

end Values

/-- What holds a value is read as that value. -/
theorem readInput_of_holds {want : Interest} {cs : Input} {v : Json} (h : Holds want cs v) :
    readInput want cs = some v := by
  obtain ⟨text, rfl, h⟩ := h
  have hlength : text.body.length ≤ text.whole.length := by
    simp only [Padded.whole, List.length_append]
    omega
  have hvalue : value (2 * text.whole.length + 2) want 0 text.whole = some (v, text.back) := by
    have hread := understood h text.front_isSpace (endsNumber_of_isSpace text.back_isSpace)
      (show 2 * text.body.length ≤ 2 * text.whole.length + 2 by omega)
    rwa [← List.append_assoc] at hread
  have hback : skipSpace text.back = [] := by
    simpa [skipSpace] using skipSpace_append text.back_isSpace []
  simp [readInput, hvalue, hback]

/-- **The reader takes what the grammar gives**, and answers the value that it denotes. -/
theorem readInput_eq_some_iff {want : Interest} {cs : Input} {v : Json} :
    readInput want cs = some v ↔ Holds want cs v :=
  ⟨holds_of_readInput, readInput_of_holds⟩

/-- The texts of a value are those that are read as it, so a text has one value. -/
theorem read_eq_some_iff {s : String} {v : Json} : read s = some v ↔ IsTextOf s v :=
  readInput_eq_some_iff

end MemoHints.Json
