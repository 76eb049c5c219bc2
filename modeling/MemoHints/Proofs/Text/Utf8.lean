import MemoHints.Text.Utf8

/-!
# Reading what was written in UTF-8

The bytes of a text are read as that text, by the strict reader and by the lossy one.  Bytes of one
character are read one at a time, so this goes by the number of bytes that it has.  The strict
reader reads no others: what is read without fault is in the bytes of its text
(`decode?_eq_some_iff`).
-/

namespace MemoHints.Text.Utf8

theorem toNat_ofNat {n : Nat} (h : n < 256) : (UInt8.ofNat n).toNat = n := by
  rw [UInt8.toNat_ofNat']
  exact Nat.mod_eq_of_lt h

/-- A byte in the range of a started character. -/
theorem decodeFrom_some_cons {p : Pending} {n : Nat} (h : n < 256) (hlow : p.low ≤ n)
    (hhigh : n ≤ p.high) (rest : List UInt8) :
    decodeFrom (some p) (UInt8.ofNat n :: rest) =
      if p.owed = 1 then some (Char.ofNat (p.code * 64 + (n - 0x80))) :: decodeFrom none rest
      else decodeFrom (some ⟨p.code * 64 + (n - 0x80), p.owed - 1, 0x80, 0xBF⟩) rest := by
  simp [decodeFrom, toNat_ofNat h, hlow, hhigh]

/-- A byte that starts a character. -/
theorem decodeFrom_none_cons {n : Nat} (h : n < 256) {p : Pending} (hfirst : first n = .inr p)
    (rest : List UInt8) :
    decodeFrom none (UInt8.ofNat n :: rest) = decodeFrom (some p) rest := by
  simp [decodeFrom, toNat_ofNat h, hfirst]

/-- Two bytes. -/
theorem decodeFrom_two {n : Nat} (h : 0x7f < n) (h' : n ≤ 0x7ff) (rest : List UInt8) :
    decodeFrom none (.ofNat (n / 64 % 0x20 + 0xc0) :: .ofNat (n % 0x40 + 0x80) :: rest) =
      some (Char.ofNat n) :: decodeFrom none rest := by
  have hstart : first (n / 64 % 0x20 + 0xc0) = .inr ⟨n / 64, 1, 0x80, 0xBF⟩ := by
    have hcode : n / 64 % 0x20 + 0xc0 - 0xC0 = n / 64 := by omega
    simp only [first, hcode]
    rw [if_neg (by omega), if_neg (by omega), if_pos (by omega)]
  have hcode : n / 64 * 64 + (n % 0x40 + 0x80 - 0x80) = n := by omega
  rw [decodeFrom_none_cons (by omega) hstart,
    decodeFrom_some_cons (by omega) (by dsimp only; omega) (by dsimp only; omega)]
  simp only [if_true, hcode]

/-- Three bytes.  The bounds of the second byte leave out what two bytes can say, and surrogates. -/
theorem decodeFrom_three {n : Nat} (h : 0x7ff < n) (h' : n ≤ 0xffff)
    (hvalid : n < 0xD800 ∨ 0xDFFF < n) (rest : List UInt8) :
    decodeFrom none (.ofNat (n / 4096 % 0x10 + 0xe0) :: .ofNat (n / 64 % 0x40 + 0x80) ::
        .ofNat (n % 0x40 + 0x80) :: rest) =
      some (Char.ofNat n) :: decodeFrom none rest := by
  have hstart : first (n / 4096 % 0x10 + 0xe0) = .inr ⟨n / 4096, 2,
      if n / 4096 = 0 then 0xA0 else 0x80, if n / 4096 = 0xD then 0x9F else 0xBF⟩ := by
    have hcode : n / 4096 % 0x10 + 0xe0 - 0xE0 = n / 4096 := by omega
    have hlow : n / 4096 % 0x10 + 0xe0 = 0xE0 ↔ n / 4096 = 0 := by omega
    have hhigh : n / 4096 % 0x10 + 0xe0 = 0xED ↔ n / 4096 = 0xD := by omega
    simp only [first, hcode, hlow, hhigh]
    rw [if_neg (by omega), if_neg (by omega), if_neg (by omega), if_pos (by omega)]
  have hcode : (n / 4096 * 64 + (n / 64 % 0x40 + 0x80 - 0x80)) * 64 +
      (n % 0x40 + 0x80 - 0x80) = n := by omega
  rw [decodeFrom_none_cons (by omega) hstart, decodeFrom_some_cons (by omega)
    (by dsimp only; split <;> omega) (by dsimp only; split <;> omega)]
  simp only [Nat.reduceEqDiff, if_false, Nat.reduceSub]
  rw [decodeFrom_some_cons (by omega) (by dsimp only; omega) (by dsimp only; omega)]
  simp only [if_true, hcode]

/-- Four bytes.  The bounds of the second byte leave out what three bytes can say, and what is no
character at all. -/
theorem decodeFrom_four {n : Nat} (h : 0xffff < n) (h' : n < 0x110000) (rest : List UInt8) :
    decodeFrom none (.ofNat (n / 262144 % 0x08 + 0xf0) :: .ofNat (n / 4096 % 0x40 + 0x80) ::
        .ofNat (n / 64 % 0x40 + 0x80) :: .ofNat (n % 0x40 + 0x80) :: rest) =
      some (Char.ofNat n) :: decodeFrom none rest := by
  have hstart : first (n / 262144 % 0x08 + 0xf0) = .inr ⟨n / 262144, 3,
      if n / 262144 = 0 then 0x90 else 0x80, if n / 262144 = 4 then 0x8F else 0xBF⟩ := by
    have hcode : n / 262144 % 0x08 + 0xf0 - 0xF0 = n / 262144 := by omega
    have hlow : n / 262144 % 0x08 + 0xf0 = 0xF0 ↔ n / 262144 = 0 := by omega
    have hhigh : n / 262144 % 0x08 + 0xf0 = 0xF4 ↔ n / 262144 = 4 := by omega
    simp only [first, hcode, hlow, hhigh]
    rw [if_neg (by omega), if_neg (by omega), if_neg (by omega), if_neg (by omega),
      if_pos (by omega)]
  have hcode : ((n / 262144 * 64 + (n / 4096 % 0x40 + 0x80 - 0x80)) * 64 +
      (n / 64 % 0x40 + 0x80 - 0x80)) * 64 + (n % 0x40 + 0x80 - 0x80) = n := by omega
  rw [decodeFrom_none_cons (by omega) hstart, decodeFrom_some_cons (by omega)
    (by dsimp only; split <;> omega) (by dsimp only; split <;> omega)]
  simp only [Nat.reduceEqDiff, if_false, Nat.reduceSub]
  rw [decodeFrom_some_cons (by omega) (by dsimp only; omega) (by dsimp only; omega)]
  simp only [Nat.reduceEqDiff, if_false, Nat.reduceSub]
  rw [decodeFrom_some_cons (by omega) (by dsimp only; omega) (by dsimp only; omega)]
  simp only [if_true, hcode]

theorem decodeFrom_encodeChar (c : Char) (rest : List UInt8) :
    decodeFrom none (String.utf8EncodeChar c ++ rest) = some c :: decodeFrom none rest := by
  have hc : Char.ofNat c.val.toNat = c := Char.ofNat_toNat c
  have hvalid : c.val.toNat < 0xD800 ∨ 0xDFFF < c.val.toNat ∧ c.val.toNat < 0x110000 := c.valid
  unfold String.utf8EncodeChar
  generalize c.val.toNat = n at hc hvalid
  dsimp only
  split
  · next hone =>
    simp [decodeFrom, toNat_ofNat (show n < 256 by omega), first, show n < 0x80 by omega, hc]
  · next hone =>
    split
    · next htwo => rw [← hc, ← decodeFrom_two (by omega) htwo]; rfl
    · next htwo =>
      split
      · next hthree => rw [← hc, ← decodeFrom_three (by omega) hthree (by omega)]; rfl
      · next hthree => rw [← hc, ← decodeFrom_four (by omega) (by omega)]; rfl

/-- The characters of a text. -/
theorem decode_encode (s : String) : decode (encode s) = s.toList.map some := by
  unfold decode encode
  induction s.toList with
  | nil => rfl
  | cons c cs ih => rw [List.flatMap_cons, decodeFrom_encodeChar, ih, List.map_cons]

theorem mapM_id_eq_some_iff {xs : List (Option Char)} {cs : List Char} :
    xs.mapM id = some cs ↔ xs = cs.map some := by
  induction xs generalizing cs with
  | nil => cases cs <;> simp
  | cons x xs ih =>
    cases x with
    | none => cases cs <;> simp
    | some c => cases cs <;> simp [Option.bind_eq_some_iff, ih, and_assoc, and_comm]

@[simp] theorem decode?_encode (s : String) : decode? (encode s) = some s := by
  rw [decode?, decode_encode, mapM_id_eq_some_iff.mpr rfl, Option.map_some, String.ofList_toList]

@[simp] theorem decodeLossy_encode (s : String) : decodeLossy (encode s) = s := by
  rw [decodeLossy, decode_encode, List.map_map]
  simp [Function.comp_def]

/-! ## What is read without fault -/

section Sound

variable {bytes : List UInt8} {cs : List Char} {c : Char} {code low high : Nat}

/-- The bytes of a character are those of its code. -/
theorem encodeChar_ofNat {n : Nat} (h : n.isValidChar) :
    String.utf8EncodeChar (Char.ofNat n) =
      if n ≤ 0x7f then [.ofNat n]
      else if n ≤ 0x7ff then [.ofNat (n / 64 % 0x20 + 0xc0), .ofNat (n % 0x40 + 0x80)]
      else if n ≤ 0xffff then
        [.ofNat (n / 4096 % 0x10 + 0xe0), .ofNat (n / 64 % 0x40 + 0x80), .ofNat (n % 0x40 + 0x80)]
      else
        [.ofNat (n / 262144 % 0x08 + 0xf0), .ofNat (n / 4096 % 0x40 + 0x80),
          .ofNat (n / 64 % 0x40 + 0x80), .ofNat (n % 0x40 + 0x80)] := by
  have hcode : (Char.ofNat n).val.toNat = n := by
    rw [Char.ofNat, dif_pos h]
    rfl
  rw [String.utf8EncodeChar, hcode]

theorem ofNat_eq {b : UInt8} {n : Nat} (h : n = b.toNat) : UInt8.ofNat n = b := by
  rw [h, UInt8.ofNat_toNat]

/-- What is read without fault after all bytes but one of a character. -/
theorem exists_last (h : decodeFrom (some ⟨code, 1, low, high⟩) bytes = (c :: cs).map some) :
    ∃ b rest, bytes = b :: rest ∧ (low ≤ b.toNat ∧ b.toNat ≤ high) ∧
      Char.ofNat (code * 64 + (b.toNat - 0x80)) = c ∧ decodeFrom none rest = cs.map some := by
  cases bytes with
  | nil => cases h
  | cons b rest =>
    simp only [decodeFrom] at h
    split at h
    next hrange =>
      obtain ⟨hc, hrest⟩ := List.cons.inj h
      exact ⟨b, rest, rfl, hrange, Option.some.inj hc, hrest⟩
    next => cases h

/-- What is read without fault where more bytes of a character follow. -/
theorem exists_next {owed : Nat}
    (h : decodeFrom (some ⟨code, owed + 2, low, high⟩) bytes = (c :: cs).map some) :
    ∃ b rest, bytes = b :: rest ∧ (low ≤ b.toNat ∧ b.toNat ≤ high) ∧
      decodeFrom (some ⟨code * 64 + (b.toNat - 0x80), owed + 1, 0x80, 0xBF⟩) rest =
        (c :: cs).map some := by
  cases bytes with
  | nil => cases h
  | cons b rest =>
    simp only [decodeFrom] at h
    split at h
    next hrange => exact ⟨b, rest, rfl, hrange, by simpa using h⟩
    next => cases h

theorem exists_of_two {b : UInt8} (hb : 0xC2 ≤ b.toNat) (hb' : b.toNat < 0xE0)
    (h : decodeFrom (some ⟨b.toNat - 0xC0, 1, 0x80, 0xBF⟩) bytes = (c :: cs).map some) :
    ∃ rest, b :: bytes = String.utf8EncodeChar c ++ rest ∧ decodeFrom none rest = cs.map some := by
  obtain ⟨b₁, rest, rfl, hrange, rfl, hrest⟩ := exists_last h
  refine ⟨rest, ?_, hrest⟩
  rw [encodeChar_ofNat (.inl (by omega)), if_neg (by omega), if_pos (by omega),
    ofNat_eq (b := b) (by omega), ofNat_eq (b := b₁) (by omega)]
  rfl

theorem exists_of_three {b : UInt8} (hb : 0xE0 ≤ b.toNat) (hb' : b.toNat < 0xF0)
    (h : decodeFrom (some ⟨b.toNat - 0xE0, 2, if b.toNat = 0xE0 then 0xA0 else 0x80,
      if b.toNat = 0xED then 0x9F else 0xBF⟩) bytes = (c :: cs).map some) :
    ∃ rest, b :: bytes = String.utf8EncodeChar c ++ rest ∧ decodeFrom none rest = cs.map some := by
  obtain ⟨b₁, rest₁, rfl, ⟨hlow, hhigh⟩, h⟩ := exists_next h
  obtain ⟨b₂, rest, rfl, hrange₂, rfl, hrest⟩ := exists_last h
  have hrange₁ : 0x80 ≤ b₁.toNat ∧ b₁.toNat ≤ 0xBF ∧ (b.toNat = 0xE0 → 0xA0 ≤ b₁.toNat) ∧
      (b.toNat = 0xED → b₁.toNat ≤ 0x9F) := by
    split at hlow <;> split at hhigh <;> omega
  clear hlow hhigh
  have hvalid : Nat.isValidChar
      (((b.toNat - 0xE0) * 64 + (b₁.toNat - 0x80)) * 64 + (b₂.toNat - 0x80)) := by
    by_cases hlow : b.toNat ≤ 0xED
    · exact .inl (by omega)
    · exact .inr (by omega)
  refine ⟨rest, ?_, hrest⟩
  rw [encodeChar_ofNat hvalid, if_neg (by omega), if_neg (by omega), if_pos (by omega),
    ofNat_eq (b := b) (by omega), ofNat_eq (b := b₁) (by omega), ofNat_eq (b := b₂) (by omega)]
  rfl

theorem exists_of_four {b : UInt8} (hb : 0xF0 ≤ b.toNat) (hb' : b.toNat < 0xF5)
    (h : decodeFrom (some ⟨b.toNat - 0xF0, 3, if b.toNat = 0xF0 then 0x90 else 0x80,
      if b.toNat = 0xF4 then 0x8F else 0xBF⟩) bytes = (c :: cs).map some) :
    ∃ rest, b :: bytes = String.utf8EncodeChar c ++ rest ∧ decodeFrom none rest = cs.map some := by
  obtain ⟨b₁, rest₁, rfl, ⟨hlow, hhigh⟩, h⟩ := exists_next h
  obtain ⟨b₂, rest₂, rfl, hrange₂, h⟩ := exists_next h
  obtain ⟨b₃, rest, rfl, hrange₃, rfl, hrest⟩ := exists_last h
  have hrange₁ : 0x80 ≤ b₁.toNat ∧ b₁.toNat ≤ 0xBF ∧ (b.toNat = 0xF0 → 0x90 ≤ b₁.toNat) ∧
      (b.toNat = 0xF4 → b₁.toNat ≤ 0x8F) := by
    split at hlow <;> split at hhigh <;> omega
  clear hlow hhigh
  refine ⟨rest, ?_, hrest⟩
  rw [encodeChar_ofNat (.inr (by omega)), if_neg (by omega), if_neg (by omega),
    if_neg (by omega), ofNat_eq (b := b) (by omega), ofNat_eq (b := b₁) (by omega),
    ofNat_eq (b := b₂) (by omega), ofNat_eq (b := b₃) (by omega)]
  rfl

/-- What is read without fault begins with the bytes of the first character. -/
theorem exists_of_decodeFrom (h : decodeFrom none bytes = (c :: cs).map some) :
    ∃ rest, bytes = String.utf8EncodeChar c ++ rest ∧ decodeFrom none rest = cs.map some := by
  cases bytes with
  | nil => cases h
  | cons b rest =>
    rw [decodeFrom, first] at h
    by_cases hone : b.toNat < 0x80
    · simp only [if_pos hone] at h
      obtain ⟨hc, hrest⟩ := List.cons.inj h
      obtain rfl := Option.some.inj hc
      refine ⟨rest, ?_, hrest⟩
      rw [encodeChar_ofNat (.inl (by omega)), if_pos (by omega), ofNat_eq rfl]
      rfl
    by_cases hstray : b.toNat < 0xC2
    · simp only [if_neg hone, if_pos hstray] at h
      cases h
    by_cases htwo : b.toNat < 0xE0
    · simp only [if_neg hone, if_neg hstray, if_pos htwo] at h
      exact exists_of_two (by omega) htwo h
    by_cases hthree : b.toNat < 0xF0
    · simp only [if_neg hone, if_neg hstray, if_neg htwo, if_pos hthree] at h
      exact exists_of_three (by omega) hthree h
    by_cases hfour : b.toNat < 0xF5
    · simp only [if_neg hone, if_neg hstray, if_neg htwo, if_neg hthree, if_pos hfour] at h
      exact exists_of_four (by omega) hfour h
    · simp only [if_neg hone, if_neg hstray, if_neg htwo, if_neg hthree, if_neg hfour] at h
      cases h

/-- Some character or broken part is read from every byte. -/
theorem decodeFrom_some_ne_nil (p : Pending) (bytes : List UInt8) :
    decodeFrom (some p) bytes ≠ [] := by
  induction bytes generalizing p with
  | nil => nofun
  | cons b rest ih =>
    simp only [decodeFrom]
    split
    · split
      · nofun
      · exact ih _
    · nofun

theorem decode_eq_nil_iff : decode bytes = [] ↔ bytes = [] := by
  refine ⟨fun h => ?_, fun h => h ▸ rfl⟩
  cases bytes with
  | nil => rfl
  | cons b rest =>
    rw [decode, decodeFrom] at h
    split at h
    · cases h
    · exact absurd h (decodeFrom_some_ne_nil _ rest)

/-- **Bytes that are read without fault are those of the characters.** -/
theorem decode_eq_map_some_iff :
    decode bytes = cs.map some ↔ bytes = cs.flatMap String.utf8EncodeChar := by
  constructor
  · intro h
    induction cs generalizing bytes with
    | nil => exact decode_eq_nil_iff.mp h
    | cons c cs ih =>
      obtain ⟨rest, rfl, hrest⟩ := exists_of_decodeFrom h
      rw [ih hrest, List.flatMap_cons]
  · rintro rfl
    simpa [encode] using decode_encode (String.ofList cs)

/-- The strict reader reads exactly the bytes of texts. -/
theorem decode?_eq_some_iff {s : String} : decode? bytes = some s ↔ bytes = encode s := by
  constructor
  · intro h
    obtain ⟨cs, hcs, rfl⟩ := Option.map_eq_some_iff.mp h
    rw [encode, String.toList_ofList, decode_eq_map_some_iff.mp (mapM_id_eq_some_iff.mp hcs)]
  · rintro rfl
    exact decode?_encode s

end Sound

end MemoHints.Text.Utf8
