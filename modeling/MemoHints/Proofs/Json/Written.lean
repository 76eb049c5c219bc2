import MemoHints.Json.Printer
import MemoHints.Proofs.Json.Understood

/-!
# Reading what was written

A compact text is read as the value that it was written for (`read_compact`), since it is a text of
that value (`Plain.isWritten`).  The texts of strings may hold any characters; numbers have to be
integers of 64 bits, since a reader may round others, and nesting is bounded (`Plain`).
-/

namespace MemoHints

theorem Text.hexValue?_hexDigit (n : Nat) : hexValue? (hexDigit n) = some (n % 16) := by
  have small : ∀ a : Fin 16, hexValue? (Nat.digitChar a) = some a.val := by decide
  exact small ⟨n % 16, Nat.mod_lt n (by decide)⟩

namespace Json

open Binary64 (decimalDigits)

/-! ## Numbers -/

section Numbers

theorem le_ofDigitChars (cs : List Char) (n : Nat) : n ≤ Nat.ofDigitChars 10 cs n := by
  induction cs generalizing n with
  | nil => exact Nat.le_refl n
  | cons c cs ih =>
    rw [Nat.ofDigitChars_cons]
    refine Nat.le_trans ?_ (ih _)
    omega

/-- Digits that fit are taken into the significand, all of them. -/
theorem takeDigits_eq (cs : List Char) {n : Nat} (h : Nat.ofDigitChars 10 cs n ≤ maxInt) :
    takeDigits n (cs.map (·.toNat - 48)) = (Nat.ofDigitChars 10 cs n, []) := by
  induction cs generalizing n with
  | nil => rfl
  | cons c cs ih =>
    rw [Nat.ofDigitChars_cons] at h ⊢
    have hnext : n * 10 + (c.toNat - 48) = 10 * n + (c.toNat - '0'.toNat) := by
      rw [Nat.mul_comm]
      rfl
    have hle := Nat.le_trans (le_ofDigitChars cs _) h
    rw [List.map_cons, takeDigits, hnext, if_neg (Nat.not_lt.mpr hle), ih h]

theorem isDigit_of_mem_decimalDigits {n : Nat} {c : Char} (h : c ∈ decimalDigits n) :
    c.isDigit = true :=
  Nat.isDigit_of_mem_toDigits (by decide) (by decide) h

/-- A number of several digits does not start with a zero. -/
theorem decimalDigits_cases (n : Nat) : ∃ c cs, decimalDigits n = c :: cs ∧
    (cs = [] ∨ c.toNat - 48 ≠ 0) := by
  induction n using Nat.strongRecOn with
  | ind n ih =>
    unfold decimalDigits at ih ⊢
    by_cases hsmall : n < 10
    · exact ⟨_, [], Nat.toDigits_of_lt_base hsmall, .inl rfl⟩
    · rw [Nat.toDigits_of_base_le (by decide) (by omega)]
      obtain ⟨c, cs, hcs, hzero⟩ := ih (n / 10) (by omega)
      refine ⟨c, cs ++ [(n % 10).digitChar], by rw [hcs, List.cons_append], .inr ?_⟩
      rcases hzero with rfl | hc
      · -- one digit before the last one, and it is not zero
        by_cases hone : n / 10 < 10
        · rw [Nat.toDigits_of_lt_base hone] at hcs
          obtain rfl := (List.cons.inj hcs).1
          rw [Nat.toNat_digitChar_sub_48_of_lt_ten hone]
          omega
        · rw [Nat.toDigits_of_base_le (by decide) (by omega)] at hcs
          have hlength := congrArg List.length hcs
          have hpos := Nat.length_toDigits_pos (b := 10) (n := n / 10 / 10)
          rw [List.length_append, List.length_singleton, List.length_singleton] at hlength
          omega
      · exact hc

theorem number?_decimalDigits {n : Nat} (hn : n ≤ maxInt) (negative : Bool)
    (hnegative : negative = true → 0 < n ∧ n ≤ 2 ^ 63) :
    number? negative ((decimalDigits n).map (·.toNat - 48)) none none =
      some (.int (if negative then -n else n)) := by
  have hvalue : Nat.ofDigitChars 10 (decimalDigits n) 0 = n := Nat.ofDigitChars_ten_toDigits
  have htake := takeDigits_eq (decimalDigits n) (n := 0) (by rwa [hvalue])
  rw [number?, htake, hvalue]
  cases negative with
  | false => rfl
  | true =>
    obtain ⟨hpos, hbound⟩ := hnegative rfl
    have hfits : ¬ (n = 0 ∨ 2 ^ 63 < n) := by omega
    simp only [Bool.not_true, Bool.false_eq_true, if_false, if_neg hfits, if_true]

/-- The digits of a number, which start with a zero only for the number zero. -/
def decimal (negative : Bool) (n : Nat) : Numeral where
  negative
  whole := ⟨decimalDigits n, by
    obtain ⟨c, cs, hcs, -⟩ := decimalDigits_cases n
    simp [hcs], fun _ => isDigit_of_mem_decimalDigits⟩
  fraction := none
  exponent := none
  no_leading_zero := by
    intro hzero
    obtain ⟨c, cs, hcs, hone⟩ := decimalDigits_cases n
    dsimp only at hzero ⊢
    rw [hcs] at hzero ⊢
    obtain rfl : c = '0' := Option.some.inj hzero
    rcases hone with rfl | hne
    · rfl
    · exact absurd rfl hne

theorem denotesNumber_writeInt {n : Int} (hlow : -2 ^ 63 ≤ n) (hhigh : n < 2 ^ 64) :
    DenotesNumber true ((writeInt n).map some) (.int n) := by
  have hmax : maxInt = 2 ^ 64 - 1 := rfl
  refine ⟨decimal (decide (n < 0)) n.natAbs, ?_, ?_⟩
  · by_cases hn : n < 0 <;> simp [writeInt, decimal, Numeral.chars, Numeral.unsigned, hn]
  · rw [if_pos rfl, Numeral.value?]
    refine (number?_decimalDigits (by omega) _ fun h => ?_).trans ?_
    · have hn : n < 0 := of_decide_eq_true h
      omega
    · have habs : (if decide (n < 0) = true then -(n.natAbs : Int) else n.natAbs) = n := by
        simp only [decide_eq_true_eq]
        split <;> omega
      exact congrArg (fun k => some (Json.int k)) habs

end Numbers

/-! ## Strings -/

/-- A character is escaped by a letter, or by its number, or it stands for itself. -/
theorem escapeChar_cases (c : Char) :
    (∃ e, escapeChar c = ['\\', e] ∧ e ≠ 'u' ∧ escaped? e = some c) ∨
    (c.toNat < 0x20 ∧ escapeChar c =
      ['\\', 'u', '0', '0', Text.hexDigit (c.toNat / 16), Text.hexDigit c.toNat]) ∨
    (¬ c.toNat < 0x20 ∧ c ≠ '"' ∧ c ≠ '\\' ∧ escapeChar c = [c]) := by
  unfold escapeChar
  split
  case h_8 _ hquote hback _ _ _ _ _ =>
    split
    next hcontrol => exact .inr (.inl ⟨hcontrol, rfl⟩)
    next hcontrol => exact .inr (.inr ⟨hcontrol, hquote, hback, rfl⟩)
  all_goals exact .inl ⟨_, rfl, by decide, rfl⟩

/-- What is written for a character spells it. -/
theorem exists_spelled (c : Char) : ∃ piece : Piece, piece.Spelled ((escapeChar c).map some) ∧
    ∀ {ps : List Piece} {cs : List Char}, Joined ps cs → Joined (piece :: ps) (c :: cs) := by
  rcases escapeChar_cases c with ⟨e, hc, -, he⟩ | ⟨hcontrol, hc⟩ | ⟨hcontrol, hquote, hback, hc⟩
  all_goals rw [hc]
  · exact ⟨_, .escape he, .char⟩
  · have hzero : Text.hexValue? '0' = some 0 := by decide
    refine ⟨_, .number hzero hzero (Text.hexValue?_hexDigit _) (Text.hexValue?_hexDigit _),
      fun h => ?_⟩
    have hvalue : (((0 * 16 + 0) * 16 + c.toNat / 16 % 16) * 16 + c.toNat % 16) = c.toNat := by
      omega
    have hunit := Joined.unit (n := c.toNat) (by omega) h
    rwa [Char.ofNat_toNat, ← hvalue] at hunit
  · exact ⟨_, .plain hcontrol hquote hback, .char⟩

theorem denotesString_writeString (s : String) : ∃ body : List Char,
    (∀ tail, writeString s tail = body ++ tail) ∧ DenotesString true (body.map some) s := by
  obtain ⟨ps, inner, hinner, hspell, hjoined⟩ : ∃ (ps : List Piece) (inner : List Char),
      (∀ tail, s.toList.foldr (fun c rest => escapeChar c ++ rest) tail = inner ++ tail) ∧
      Spell ps (inner.map some) ∧ Joined ps s.toList := by
    induction s.toList with
    | nil => exact ⟨[], [], fun _ => rfl, .nil, .nil⟩
    | cons c cs ih =>
      obtain ⟨ps, inner, hinner, hspell, hjoined⟩ := ih
      obtain ⟨piece, hpiece, hcons⟩ := exists_spelled c
      refine ⟨piece :: ps, escapeChar c ++ inner, fun tail => ?_, ?_, hcons hjoined⟩
      · rw [List.foldr_cons, hinner, List.append_assoc]
      · rw [List.map_append]
        exact .cons hpiece hspell
  refine ⟨'"' :: (inner ++ ['"']), fun tail => ?_, ps, inner.map some, hspell, by simp, ?_⟩
  · rw [writeString, hinner]
    simp
  · exact hjoined

/-! ## Values -/

/-- Values that are read as they are written: numbers are integers of 64 bits, and lists and records
are nested no deeper than a bound. -/
inductive Plain : Nat → Json → Prop where
  | null {depth : Nat} : Plain depth .null
  | bool {depth : Nat} (b : Bool) : Plain depth (.bool b)
  | int {depth : Nat} {n : Int} (low : -2 ^ 63 ≤ n) (high : n < 2 ^ 64) : Plain depth (.int n)
  | str {depth : Nat} (s : String) : Plain depth (.str s)
  | arr {depth : Nat} {items : List Json} (h : ∀ v ∈ items, Plain depth v) :
    Plain (depth + 1) (.arr items)
  | obj {depth : Nat} {members : List (String × Json)} (h : ∀ m ∈ members, Plain depth m.2) :
    Plain (depth + 1) (.obj members)

/-- What is written for the value is a text of it. -/
def IsWritten (depth : Nat) (v : Json) : Prop :=
  ∃ body : List Char, (∀ tail, write v tail = body ++ tail) ∧ Denotes .whole depth (body.map some) v

section Written

variable {depth : Nat}

theorem exists_items {v : Json} {rest : List Json} (hv : IsWritten depth v)
    (hrest : ∀ w ∈ rest, IsWritten depth w) : ∃ (body : List Char) (xs : List Item),
    (∀ tail, write v (write.writeItems rest tail) = body ++ ']' :: tail) ∧
    xs.map (·.value) = v :: rest ∧ body.map some = commas (xs.map (·.text.whole)) ∧
    ∀ x ∈ xs, Denotes .whole depth x.text.body x.value := by
  induction rest generalizing v with
  | nil =>
    obtain ⟨body, hbody, hv⟩ := hv
    refine ⟨body, [⟨v, .tight (body.map some)⟩], fun tail => hbody _, rfl, ?_, ?_⟩
    · simp [Padded.whole, Padded.tight]
    · simpa [Padded.tight] using hv
  | cons w rest ih =>
    obtain ⟨body, hbody, hv⟩ := hv
    obtain ⟨hw, hrest⟩ := List.forall_mem_cons.mp hrest
    obtain ⟨more, xs, hmore, hvalues, htexts, hxs⟩ := ih hw hrest
    have hne : xs.map (·.text.whole) ≠ [] := by
      rintro hnil
      simp [List.map_eq_nil_iff.mp hnil] at hvalues
    refine ⟨body ++ ',' :: more, ⟨v, .tight (body.map some)⟩ :: xs, fun tail => ?_, ?_, ?_, ?_⟩
    · rw [hbody, write.writeItems, hmore]
      simp
    · rw [List.map_cons, hvalues]
    · rw [List.map_cons, commas_cons hne, ← htexts]
      simp [Padded.whole, Padded.tight]
    · exact List.forall_mem_cons.mpr ⟨hv, hxs⟩

theorem exists_member {k : String} {v : Json} (hv : IsWritten depth v) :
    ∃ (body : List Char) (m : Member),
      (∀ tail, writeString k (':' :: write v tail) = body ++ tail) ∧
      (m.name, m.value) = (k, v) ∧ m.whole = body.map some ∧
      DenotesString true m.label.body m.name ∧ Denotes .whole depth m.text.body m.value := by
  obtain ⟨body, hbody, hv⟩ := hv
  obtain ⟨label, hlabel, hk⟩ := denotesString_writeString k
  refine ⟨label ++ ':' :: body, ⟨k, .tight (label.map some), v, .tight (body.map some)⟩,
    fun tail => ?_, rfl, ?_, hk, hv⟩
  · rw [hlabel, hbody]
    simp
  · simp [Member.whole, Padded.whole, Padded.tight]

theorem exists_members {k : String} {v : Json} {rest : List (String × Json)}
    (hv : IsWritten depth v) (hrest : ∀ m ∈ rest, IsWritten depth m.2) :
    ∃ (body : List Char) (ms : List Member),
    (∀ tail, writeString k (':' :: write v (write.writeMembers rest tail)) =
      body ++ '\x7d' :: tail) ∧
    ms.map (fun m => (m.name, m.value)) = (k, v) :: rest ∧
    body.map some = commas (ms.map Member.whole) ∧
    ∀ m ∈ ms, DenotesString true m.label.body m.name ∧
      Denotes .whole depth m.text.body m.value := by
  induction rest generalizing k v with
  | nil =>
    obtain ⟨body, m, hbody, hmember, hwhole, hm⟩ := exists_member (k := k) hv
    refine ⟨body, [m], fun tail => hbody _, by rw [List.map_singleton, hmember], ?_, ?_⟩
    · rw [List.map_singleton, commas_singleton, hwhole]
    · simpa using hm
  | cons n rest ih =>
    obtain ⟨hn, hrest⟩ := List.forall_mem_cons.mp hrest
    obtain ⟨body, m, hbody, hmember, hwhole, hm⟩ := exists_member (k := k) hv
    obtain ⟨more, ms, hmore, hpairs, htexts, hms⟩ := ih (k := n.1) hn hrest
    have hne : ms.map Member.whole ≠ [] := by
      rintro hnil
      simp [List.map_eq_nil_iff.mp hnil] at hpairs
    refine ⟨body ++ ',' :: more, m :: ms, fun tail => ?_, ?_, ?_, ?_⟩
    · rw [hbody, write.writeMembers, hmore]
      simp
    · rw [List.map_cons, hmember, hpairs]
    · rw [List.map_cons, commas_cons hne, hwhole, ← htexts]
      simp
    · exact List.forall_mem_cons.mpr ⟨hm, hms⟩

theorem isWritten_arr {items : List Json} (hdepth : depth < maxDepth)
    (h : ∀ v ∈ items, IsWritten (depth + 1) v) : IsWritten depth (.arr items) := by
  cases items with
  | nil => exact ⟨['[', ']'], fun _ => rfl, .noItems (fun _ => hdepth) (List.forall_mem_nil _)⟩
  | cons v rest =>
    obtain ⟨hv, hrest⟩ := List.forall_mem_cons.mp h
    obtain ⟨body, xs, hbody, hvalues, htexts, hxs⟩ := exists_items hv hrest
    refine ⟨'[' :: (body ++ [']']), fun tail => ?_, ?_⟩
    · rw [write, hbody]
      simp
    · have hne : xs ≠ [] := by
        rintro rfl
        cases hvalues
      have hdenotes : Denotes .whole depth
          (some '[' :: (commas (xs.map (·.text.whole)) ++ [some ']'])) (.arr (xs.map (·.value))) :=
        .items (fun _ => hdepth) hne fun i x hx => hxs x (List.mem_of_getElem? hx)
      rw [hvalues, ← htexts] at hdenotes
      simpa using hdenotes

theorem isWritten_obj {members : List (String × Json)} (hdepth : depth < maxDepth)
    (h : ∀ m ∈ members, IsWritten (depth + 1) m.2) : IsWritten depth (.obj members) := by
  cases members with
  | nil =>
    exact ⟨['\x7b', '\x7d'], fun _ => rfl, .noMembers (fun _ => hdepth) (List.forall_mem_nil _)⟩
  | cons m rest =>
    obtain ⟨k, v⟩ := m
    obtain ⟨hv, hrest⟩ := List.forall_mem_cons.mp h
    obtain ⟨body, ms, hbody, hpairs, htexts, hms⟩ := exists_members (k := k) hv hrest
    refine ⟨'\x7b' :: (body ++ ['\x7d']), fun tail => ?_, ?_⟩
    · rw [write, hbody]
      simp
    · have hne : ms ≠ [] := by
        rintro rfl
        cases hpairs
      have hkept : kept .whole ms = (k, v) :: rest := by
        rw [← hpairs, kept]
        congr 1
        exact List.filter_eq_self.mpr fun _ _ => rfl
      have hdenotes : Denotes .whole depth
          (some '\x7b' :: (commas (ms.map Member.whole) ++ [some '\x7d']))
          (.obj (kept .whole ms)) :=
        .members (fun _ => hdepth) hne (fun m hm => (hms m hm).1) fun m hm => (hms m hm).2
      rw [hkept, ← htexts] at hdenotes
      simpa using hdenotes

theorem Plain.isWritten {n : Nat} {v : Json} (h : Plain n v) :
    ∀ depth, depth + n ≤ maxDepth → IsWritten depth v := by
  induction h with
  | null => exact fun _ _ => ⟨['n', 'u', 'l', 'l'], fun _ => rfl, .null⟩
  | bool b => exact fun _ _ => ⟨boolWord b, fun _ => by cases b <;> rfl, .bool b⟩
  | @int _ n hlow hhigh =>
    refine fun _ _ => ⟨writeInt n, fun _ => ?_, .number (denotesNumber_writeInt hlow hhigh)⟩
    rw [write, writeAtom]
    all_goals nofun
  | str s =>
    intro _ _
    obtain ⟨body, hbody, hs⟩ := denotesString_writeString s
    exact ⟨body, hbody, .string hs⟩
  | arr _ ih =>
    intro depth hdepth
    exact isWritten_arr (by omega) fun v hv => ih v hv (depth + 1) (by omega)
  | obj _ ih =>
    intro depth hdepth
    exact isWritten_obj (by omega) fun m hm => ih m hm (depth + 1) (by omega)

end Written

/-- **What is written is read.** -/
theorem read_compact {n : Nat} {v : Json} (h : Plain n v) (hn : n ≤ maxDepth) :
    read v.compact = some v := by
  obtain ⟨body, hbody, hdenotes⟩ := h.isWritten 0 (by omega)
  refine read_eq_some_iff.mpr ⟨.tight (body.map some), ?_, hdenotes⟩
  simp [compact, hbody, Padded.whole, Padded.tight]

end Json

end MemoHints
