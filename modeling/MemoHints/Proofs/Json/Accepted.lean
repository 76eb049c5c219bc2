import Mathlib.Data.List.DropRight
import MemoHints.Proofs.Json.Grammar

/-!
# What the reader accepts

Whatever the reader takes from its input denotes the value that it answers (`holds_of_readInput`).
The reader goes over the input once and leaves a rest, so every lemma says which characters were
taken in front of the rest.  The bound on its steps plays no part here: lists, their items and
members of records are read with fewer steps each, and that is what the induction is on.
-/

namespace MemoHints.Json

/-! ## Space -/

theorem exists_skipSpace (cs : Input) : ∃ space, IsSpace space ∧ cs = space ++ skipSpace cs :=
  ⟨cs.takeWhile isSpace, fun _ hc => List.mem_takeWhile_imp hc,
    List.takeWhile_append_dropWhile.symm⟩

theorem skipSpace_append {space : Input} (h : IsSpace space) (rest : Input) :
    skipSpace (space ++ rest) = skipSpace rest := List.dropWhile_append_of_pos h

theorem skipSpace_skipSpace (cs : Input) : skipSpace (skipSpace cs) = skipSpace cs :=
  List.dropWhile_idempotent _ cs

/-! ## Numbers -/

section Numbers

variable {cs rest : Input}

theorem exists_digits (cs : Input) : ∃ ds : List Char, (∀ c ∈ ds, c.isDigit = true) ∧
    cs = ds.map some ++ (digits cs).2 ∧ (digits cs).1 = ds.map (·.toNat - 48) := by
  induction cs with
  | nil => exact ⟨[], nofun, rfl, rfl⟩
  | cons x cs ih =>
    cases x with
    | none => exact ⟨[], nofun, rfl, rfl⟩
    | some c =>
      rw [digits]
      split
      next hc =>
        obtain ⟨ds, hds, hcs, hvalues⟩ := ih
        refine ⟨c :: ds, List.forall_mem_cons.mpr ⟨hc, hds⟩, ?_, ?_⟩
        · rw [List.map_cons, List.cons_append, ← hcs]
        · rw [List.map_cons, ← hvalues]
      next => exact ⟨[], nofun, rfl, rfl⟩

/-- Digits that were read, if there are any. -/
theorem exists_digits_of_ne_nil {found : List Nat} (h : digits cs = (found, rest))
    (hne : found ≠ []) : ∃ ds : Digits, ds.values = found ∧ cs = ds.chars.map some ++ rest := by
  obtain ⟨ds, hds, hcs, hvalues⟩ := exists_digits cs
  rw [h] at hcs hvalues
  refine ⟨⟨ds, ?_, hds⟩, hvalues.symm, hcs⟩
  rintro rfl
  exact hne hvalues

theorem exists_of_fraction? {found : Option (List Nat)} (h : fraction? cs = some (found, rest)) :
    ∃ ds : Option Digits, ds.map (·.values) = found ∧
      cs = ((ds.map ('.' :: ·.chars)).getD []).map some ++ rest := by
  unfold fraction? at h
  split at h
  next after =>
    split at h
    next => cases h
    next hne hds =>
      cases h
      obtain ⟨ds, rfl, rfl⟩ := exists_digits_of_ne_nil hds hne
      exact ⟨some ds, rfl, rfl⟩
  next =>
    cases h
    exact ⟨none, rfl, rfl⟩

theorem exists_of_exponent? {found : Option Int} (h : exponent? cs = some (found, rest)) :
    ∃ e : Option Exponent, e.map (·.value) = found ∧
      cs = ((e.map (·.chars)).getD []).map some ++ rest := by
  unfold exponent? at h
  split at h
  next mark after =>
    split at h
    next hmark =>
      split at h
      next negative unsigned hsigned =>
      obtain ⟨sign, hsign, rfl, hnegative⟩ : ∃ sign ∈ [[], ['+'], ['-']],
          after = sign.map some ++ unsigned ∧ (negative = true ↔ sign = ['-']) := by
        split at hsigned
        all_goals cases hsigned
        · exact ⟨['-'], by simp, rfl, by simp⟩
        · exact ⟨['+'], by simp, rfl, by simp⟩
        · exact ⟨[], by simp, rfl, by simp⟩
      split at h
      next => cases h
      next hne hds =>
        cases h
        obtain ⟨ds, rfl, rfl⟩ := exists_digits_of_ne_nil hds hne
        refine ⟨some ⟨mark, sign, ds, by simpa using hmark, hsign⟩, ?_, ?_⟩
        · simp only [Option.map_some, Exponent.value, hnegative]
        · simp [Exponent.chars]
    next =>
      cases h
      exact ⟨none, rfl, rfl⟩
  next =>
    cases h
    exact ⟨none, rfl, rfl⟩

/-- A number after its sign. -/
theorem exists_of_number {wanted negative : Bool} {v : Json}
    (h : number wanted negative cs = some (v, rest)) :
    ∃ n : Numeral, n.negative = negative ∧ cs = n.unsigned.map some ++ rest ∧
      if wanted then n.value? = some v else v = .null := by
  unfold number at h
  generalize hdigits : digits cs = found at h
  obtain ⟨whole, afterWhole⟩ := found
  dsimp only at h
  split at h
  next => cases h
  next => cases h
  next hne hzero =>
    obtain ⟨ds, rfl, rfl⟩ := exists_digits_of_ne_nil hdigits hne
    simp only [Option.bind_eq_bind, Option.bind_eq_some_iff, Prod.exists] at h
    obtain ⟨frac, afterFraction, hfraction, exp, afterExponent, hexponent, h⟩ := h
    obtain ⟨frac, rfl, rfl⟩ := exists_of_fraction? hfraction
    obtain ⟨exp, rfl, rfl⟩ := exists_of_exponent? hexponent
    have hleading : ds.chars.head? = some '0' → ds.chars = ['0'] := by
      intro hhead
      obtain ⟨more, hmore⟩ := List.head?_eq_some_iff.mp hhead
      cases more with
      | nil => exact hmore
      | cons c more => exact (hzero _ _ (by rw [Digits.values, hmore]; rfl)).elim
    have hrest : afterExponent = rest ∧
        if wanted then Numeral.value? ⟨negative, ds, frac, exp, hleading⟩ = some v
        else v = .null := by
      split at h
      next hwanted =>
        obtain ⟨w, hw, h⟩ := Option.bind_eq_some_iff.mp h
        cases h
        exact ⟨rfl, by rw [if_pos hwanted]; exact hw⟩
      next hwanted =>
        cases h
        exact ⟨rfl, by rw [if_neg hwanted]⟩
    obtain ⟨rfl, hvalue⟩ := hrest
    exact ⟨⟨negative, ds, frac, exp, hleading⟩, rfl, by simp [Numeral.unsigned], hvalue⟩

end Numbers

/-! ## Strings -/

section Strings

variable {cs rest : Input} {ps : List Piece}

/-- A piece is taken in front of those that follow it. -/
theorem exists_spell_cons {piece : Piece} {front : Input} {found : Option (List Piece × Input)}
    (hpiece : piece.Spelled front)
    (ih : ∀ {more}, found = some (more, rest) → ∃ inner, Spell more inner ∧
      cs = inner ++ some '"' :: rest)
    (h : (found.bind fun more => some (piece :: more.1, more.2)) = some (ps, rest)) :
    ∃ inner, Spell ps inner ∧ front ++ cs = inner ++ some '"' :: rest := by
  obtain ⟨⟨more, after⟩, hmore, h⟩ := Option.bind_eq_some_iff.mp h
  cases h
  obtain ⟨inner, hinner, rfl⟩ := ih hmore
  exact ⟨front ++ inner, .cons hpiece hinner, (List.append_assoc ..).symm⟩

theorem exists_of_pieces (h : pieces cs = some (ps, rest)) :
    ∃ inner, Spell ps inner ∧ cs = inner ++ some '"' :: rest := by
  fun_induction pieces cs generalizing ps with
  | case1 => cases h
  | case2 after =>
    cases h
    exact ⟨[], .nil, rfl⟩
  | case3 a b c d after ih =>
    obtain ⟨n, hn, h⟩ := Option.bind_eq_some_iff.mp h
    simp only [List.foldlM_cons, List.foldlM_nil, Option.bind_eq_bind, Option.pure_def,
      Option.bind_assoc, Option.bind_some, Option.bind_eq_some_iff, Nat.zero_mul, Nat.zero_add,
      Option.some.injEq] at hn
    obtain ⟨w, ha, x, hb, y, hc, z, hd, rfl⟩ := hn
    exact exists_spell_cons (.number ha hb hc hd) ih h
  | case4 e after hu ih =>
    obtain ⟨c, hc, h⟩ := Option.bind_eq_some_iff.mp h
    exact exists_spell_cons (.escape hc) ih h
  | case5 => cases h
  | case6 => cases h
  | case7 c after hquote hunit hescape hback hcontrol ih =>
    exact exists_spell_cons (.plain hcontrol hquote hback) ih h
  | case8 after ih => exact exists_spell_cons .broken ih h

theorem joined_of_joinPieces {cs : List Char} (h : joinPieces ps = some cs) : Joined ps cs := by
  fun_induction joinPieces ps generalizing cs with
  | case1 =>
    cases h
    exact .nil
  | case2 c after ih =>
    cases c with
    | none => cases h
    | some c =>
      rw [Option.bind_eq_bind, Option.bind_some] at h
      obtain ⟨more, hmore, h⟩ := Option.bind_eq_some_iff.mp h
      cases h
      exact .char (ih hmore)
  | case3 n m after hn hm ih =>
    obtain ⟨more, hmore, h⟩ := Option.bind_eq_some_iff.mp h
    cases h
    exact .pair hn hm (ih hmore)
  | case4 => cases h
  | case5 => cases h
  | case6 n m after hhigh hlow ih =>
    obtain ⟨more, hmore, h⟩ := Option.bind_eq_some_iff.mp h
    cases h
    exact .unit (by omega) (ih hmore)
  | case7 => cases h
  | case8 n after _ hhalf ih =>
    obtain ⟨more, hmore, h⟩ := Option.bind_eq_some_iff.mp h
    cases h
    exact .unit (by omega) (ih hmore)

/-- A string after its opening quote. -/
theorem exists_of_string {wanted : Bool} {s : String} (h : string wanted cs = some (s, rest)) :
    ∃ body, DenotesString wanted body s ∧ some '"' :: cs = body ++ rest := by
  obtain ⟨⟨ps, after⟩, hps, hfound⟩ := Option.bind_eq_some_iff.mp h
  obtain ⟨inner, hinner, rfl⟩ := exists_of_pieces hps
  obtain ⟨htext, rfl⟩ : (if wanted then Joined ps s.toList else s = "") ∧ after = rest := by
    cases wanted with
    | false =>
      cases hfound
      exact ⟨rfl, rfl⟩
    | true =>
      obtain ⟨cs, hcs, hfound⟩ := Option.bind_eq_some_iff.mp hfound
      cases hfound
      exact ⟨by simpa using joined_of_joinPieces hcs, rfl⟩
  exact ⟨_, ⟨ps, inner, hinner, rfl, htext⟩, by simp⟩

end Strings

/-! ## Values -/

section Values

@[simp] theorem commas_singleton (text : Input) : commas [text] = text := by simp [commas]

theorem commas_cons {texts : List Input} (h : texts ≠ []) (text : Input) :
    commas (text :: texts) = text ++ some ',' :: commas texts := by
  cases texts with
  | nil => exact absurd rfl h
  | cons t texts => simp [commas]

@[simp] theorem kept_nil (want : Interest) : kept want [] = [] := rfl

@[simp] theorem kept_cons (want : Interest) (m : Member) (ms : List Member) :
    kept want (m :: ms) =
      (if (want.ofMember m.name).any then [(m.name, m.value)] else []) ++ kept want ms := by
  by_cases h : (want.ofMember m.name).any <;> simp [kept, h]

/-- What is answered in so many steps is denoted by what was taken. -/
def ValueSound (fuel : Nat) : Prop :=
  ∀ {want : Interest} {depth : Nat} {cs rest : Input} {v : Json},
    value fuel want depth cs = some (v, rest) →
      ∃ space body, IsSpace space ∧ cs = space ++ (body ++ rest) ∧ Denotes want depth body v

def ItemsSound (fuel : Nat) : Prop :=
  ∀ {want : Interest} {depth index : Nat} {cs rest : Input} {vs : List Json},
    items fuel want depth index cs = some (vs, rest) →
      ∃ xs : List Item, xs ≠ [] ∧ vs = xs.map (·.value) ∧
        cs = commas (xs.map (·.text.whole)) ++ some ']' :: rest ∧
        ∀ i x, xs[i]? = some x → Denotes (want.ofItem (index + i)) depth x.text.body x.value

def MembersSound (fuel : Nat) : Prop :=
  ∀ {want : Interest} {depth : Nat} {cs rest : Input} {found : List (String × Json)},
    members fuel want depth cs = some (found, rest) →
      ∃ ms : List Member, ms ≠ [] ∧ found = kept want ms ∧
        cs = commas (ms.map Member.whole) ++ some '\x7d' :: rest ∧
        (∀ m ∈ ms, DenotesString want.any m.label.body m.name) ∧
        ∀ m ∈ ms, Denotes (want.ofMember m.name) depth m.text.body m.value

variable {fuel : Nat}

theorem itemsSound_succ (hvalue : ValueSound fuel) (hitems : ItemsSound fuel) :
    ItemsSound (fuel + 1) := by
  intro want depth index cs rest vs h
  rw [items] at h
  obtain ⟨⟨v, after⟩, hv, h⟩ := Option.bind_eq_some_iff.mp h
  obtain ⟨front, body, hfront, hcs, hbody⟩ := hvalue hv
  obtain ⟨back, hback, hafter⟩ := exists_skipSpace after
  let x : Item := ⟨v, ⟨front, body, back, hfront, hback⟩⟩
  dsimp only at h
  split at h
  next later hlater =>
    obtain ⟨⟨more, after'⟩, hmore, h⟩ := Option.bind_eq_some_iff.mp h
    cases h
    obtain ⟨xs, hne, rfl, rfl, hxs⟩ := hitems hmore
    refine ⟨x :: xs, List.cons_ne_nil _ _, rfl, ?_, ?_⟩
    · rw [hcs, hafter, hlater, List.map_cons, commas_cons (by simpa using hne)]
      simp [x, Padded.whole]
    · intro i y hy
      cases i with
      | zero =>
        obtain rfl := Option.some.inj hy
        exact hbody
      | succ i =>
        have hlater := hxs i y hy
        rwa [Nat.add_right_comm] at hlater
  next later hlater =>
    cases h
    refine ⟨[x], List.cons_ne_nil _ _, rfl, ?_, ?_⟩
    · rw [hcs, hafter, hlater]
      simp [x, Padded.whole]
    · intro i y hy
      cases i with
      | zero =>
        obtain rfl := Option.some.inj hy
        exact hbody
      | succ i => cases hy
  next => cases h

/-- The space in front of a list's items may be read before. -/
theorem items_skipSpace (fuel : Nat) (want : Interest) (depth index : Nat) (cs : Input) :
    items fuel want depth index (skipSpace cs) = items fuel want depth index cs := by
  cases fuel with
  | zero => simp only [items]
  | succ fuel => cases fuel <;> simp only [items, value, skipSpace_skipSpace]

theorem members_skipSpace (fuel : Nat) (want : Interest) (depth : Nat) (cs : Input) :
    members fuel want depth (skipSpace cs) = members fuel want depth cs := by
  cases fuel <;> simp only [members, skipSpace_skipSpace]

theorem membersSound_succ (hvalue : ValueSound fuel) (hmembers : MembersSound fuel) :
    MembersSound (fuel + 1) := by
  intro want depth cs rest found h
  obtain ⟨front, hfront, hcs⟩ := exists_skipSpace cs
  rw [members] at h
  split at h
  next afterQuote hquote =>
    obtain ⟨⟨name, afterName⟩, hname, h⟩ := Option.bind_eq_some_iff.mp h
    obtain ⟨label, hlabel, hafterQuote⟩ := exists_of_string hname
    obtain ⟨gap, hgap, hafterName⟩ := exists_skipSpace afterName
    dsimp only at h
    split at h
    next afterColon hcolon =>
      obtain ⟨⟨v, afterValue⟩, hv, h⟩ := Option.bind_eq_some_iff.mp h
      obtain ⟨space, body, hspace, hafterColon, hbody⟩ := hvalue hv
      obtain ⟨back, hback, hafterValue⟩ := exists_skipSpace afterValue
      let m : Member :=
        ⟨name, ⟨front, label, gap, hfront, hgap⟩, v, ⟨space, body, back, hspace, hback⟩⟩
      have hm : cs = m.whole ++ skipSpace afterValue := by
        rw [hcs, hquote, hafterQuote, hafterName, hcolon, hafterColon]
        conv => lhs; rw [hafterValue]
        simp [m, Member.whole, Padded.whole]
      dsimp only at h
      split at h
      next later hlater =>
        obtain ⟨⟨more, after⟩, hmore, h⟩ := Option.bind_eq_some_iff.mp h
        cases h
        obtain ⟨ms, hne, rfl, rfl, hlabels, hvalues⟩ := hmembers hmore
        refine ⟨m :: ms, List.cons_ne_nil _ _, ?_, ?_, List.forall_mem_cons.mpr ⟨hlabel, hlabels⟩,
          List.forall_mem_cons.mpr ⟨hbody, hvalues⟩⟩
        · rw [kept_cons]
        · rw [hm, hlater, List.map_cons, commas_cons (by simpa using hne)]
          simp
      next later hlater =>
        cases h
        refine ⟨[m], List.cons_ne_nil _ _, ?_, ?_, List.forall_mem_singleton.mpr hlabel,
          List.forall_mem_singleton.mpr hbody⟩
        · rw [kept_cons, kept_nil, List.append_nil]
        · rw [hm, hlater]
          simp
      next => cases h
    next => cases h
  next => cases h

theorem valueSound_succ (hitems : ItemsSound fuel) (hmembers : MembersSound fuel) :
    ValueSound (fuel + 1) := by
  intro want depth cs rest v h
  obtain ⟨space, hspace, hcs⟩ := exists_skipSpace cs
  suffices ∃ body, skipSpace cs = body ++ rest ∧ Denotes want depth body v by
    obtain ⟨body, hbody, hdenotes⟩ := this
    exact ⟨space, body, hspace, hbody ▸ hcs, hdenotes⟩
  rw [value] at h
  split at h
  next after heq =>
    cases h
    exact ⟨_, heq, .null⟩
  next after heq =>
    cases h
    exact ⟨_, heq, .bool true⟩
  next after heq =>
    cases h
    exact ⟨_, heq, .bool false⟩
  next after heq =>
    obtain ⟨⟨s, after'⟩, hs, h⟩ := Option.bind_eq_some_iff.mp h
    cases h
    obtain ⟨body, hbody, hafter⟩ := exists_of_string hs
    exact ⟨body, heq.trans hafter, .string hbody⟩
  next after heq =>
    split at h
    next => cases h
    next hroom =>
      have hroom : Room want depth := fun hwanted => by simpa [hwanted] using hroom
      obtain ⟨gap, hgap, hafter⟩ := exists_skipSpace after
      split at h
      next later hlater =>
        cases h
        exact ⟨_, by rw [heq, hafter, hlater]; simp, .noItems hroom hgap⟩
      next =>
        obtain ⟨⟨vs, after'⟩, hvs, h⟩ := Option.bind_eq_some_iff.mp h
        cases h
        rw [items_skipSpace] at hvs
        obtain ⟨xs, hne, rfl, rfl, hxs⟩ := hitems hvs
        exact ⟨_, by rw [heq]; simp, .items hroom hne fun i x hx => by simpa using hxs i x hx⟩
  next after heq =>
    split at h
    next => cases h
    next hroom =>
      have hroom : Room want depth := fun hwanted => by simpa [hwanted] using hroom
      obtain ⟨gap, hgap, hafter⟩ := exists_skipSpace after
      split at h
      next later hlater =>
        cases h
        exact ⟨_, by rw [heq, hafter, hlater]; simp, .noMembers hroom hgap⟩
      next =>
        obtain ⟨⟨found, after'⟩, hfound, h⟩ := Option.bind_eq_some_iff.mp h
        cases h
        rw [members_skipSpace] at hfound
        obtain ⟨ms, hne, rfl, rfl, hlabels, hvalues⟩ := hmembers hfound
        exact ⟨_, by rw [heq]; simp, .members hroom hne hlabels hvalues⟩
  next after heq =>
    obtain ⟨n, hn, rfl, hvalue⟩ := exists_of_number h
    exact ⟨n.chars.map some, by rw [heq, Numeral.chars, hn]; rfl, .number ⟨n, rfl, hvalue⟩⟩
  next =>
    obtain ⟨n, hn, hafter, hvalue⟩ := exists_of_number h
    exact ⟨n.chars.map some, by rw [hafter, Numeral.chars, hn]; rfl, .number ⟨n, rfl, hvalue⟩⟩

theorem sound (fuel : Nat) : ValueSound fuel ∧ ItemsSound fuel ∧ MembersSound fuel := by
  induction fuel with
  | zero =>
    refine ⟨?_, ?_, ?_⟩
    · intro want depth cs rest v h
      simp [value] at h
    · intro want depth index cs rest vs h
      simp [items] at h
    · intro want depth cs rest found h
      simp [members] at h
  | succ fuel ih =>
    obtain ⟨hvalue, hitems, hmembers⟩ := ih
    exact ⟨valueSound_succ hitems hmembers, itemsSound_succ hvalue hitems,
      membersSound_succ hvalue hmembers⟩

end Values

/-- **What the reader accepts denotes what it answers.** -/
theorem holds_of_readInput {want : Interest} {cs : Input} {v : Json}
    (h : readInput want cs = some v) : Holds want cs v := by
  obtain ⟨⟨w, rest⟩, hw, h⟩ := Option.bind_eq_some_iff.mp h
  obtain ⟨front, body, hfront, hcs, hbody⟩ := (sound _).1 hw
  obtain ⟨back, hback, hrest⟩ := exists_skipSpace rest
  dsimp only at h
  split at h
  next hempty =>
    cases h
    rw [List.isEmpty_iff.mp hempty, List.append_nil] at hrest
    refine ⟨⟨front, body, back, hfront, hback⟩, ?_, hbody⟩
    rw [hcs, hrest, Padded.whole, List.append_assoc]
  next => cases h

end MemoHints.Json
