import Mathlib.Data.List.Forall2
import MemoHints.Proofs.FileTree
import MemoHints.Proofs.ResultCache
import MemoHints.Proofs.Results
import MemoHints.Proofs.Text.Percent
import MemoHints.Proofs.Text.Utf8
import MemoHints.Uri.Basic

/-!
# Documents of one name

The compiler knows a document by a name that is made of the path of its address, and results are
kept under that name.  Neither the scheme nor the authority is part of it, and a path that begins
with a slash is decoded, whatever the scheme is.  `SameName` says which paths have one name, so
which documents with one text share their result (`sameName_iff`).

A path that was encoded where it had to be, and holds no other percent signs, is given back as it
was (`fileName_encode`).
-/

namespace MemoHints

/-! ## Bytes behind a path -/

namespace Percent

/-- A percent sign that is not followed by two digits stands for itself. -/
theorem decode_percent {rest : List Char} (h : ∀ a b more, rest = a :: b :: more →
    Text.hexValue? a = none ∨ Text.hexValue? b = none) :
    decode ('%' :: rest) = 0x25 :: decode rest := by
  match rest with
  | [] | [a] => rfl
  | a :: b :: more =>
    rw [decode]
    rcases h a b more rfl with ha | hb
    · simp only [ha]
    · cases ha : Text.hexValue? a <;> simp only [hb]

theorem decode_slash (rest : List Char) : decode ('/' :: rest) = FilePath.slash :: decode rest :=
  decode_cons (by decide) rest

/-- A slash divides a text where it divides the bytes. -/
theorem decode_append_slash (cs rest : List Char) :
    decode (cs ++ '/' :: rest) = decode cs ++ FilePath.slash :: decode rest := by
  have hslash : Text.hexValue? '/' = none := by decide
  fun_induction decode cs with
  | case1 a b more x y ha hb ih => simp [decode, ha, hb, ih]
  | case2 a b more hnot ih =>
    have hnone : Text.hexValue? a = none ∨ Text.hexValue? b = none := by
      cases ha : Text.hexValue? a with
      | none => exact .inl rfl
      | some x =>
        cases hb : Text.hexValue? b with
        | none => exact .inr rfl
        | some y => exact (hnot x y ha hb).elim
    rw [List.cons_append, decode_percent, ih, List.cons_append]
    intro first second later heq
    simp only [List.cons_append, List.cons.injEq] at heq
    obtain ⟨rfl, rfl, -⟩ := heq
    exact hnone
  | case3 c more hnot ih =>
    by_cases hc : c = '%'
    · -- at most one character is left before the slash, so no two digits are
      subst hc
      rw [List.cons_append, decode_percent, ih]
      · rfl
      · intro a b later heq
        rcases more with _ | ⟨d, _ | ⟨e, more⟩⟩
        · exact .inl ((List.cons.inj heq).1 ▸ hslash)
        · exact .inr ((List.cons.inj (List.cons.inj heq).2).1 ▸ hslash)
        · exact (hnot d e more rfl rfl).elim
    · rw [List.cons_append, decode_cons hc, ih, List.append_assoc]
  | case4 => exact decode_slash rest

theorem flatMap_splitWhere (cs : List Char) :
    (Text.splitWhere (· = '/') cs).flatMap (fun s => FilePath.slash :: decode s) =
      FilePath.slash :: decode cs := by
  induction hn : cs.length using Nat.strongRecOn generalizing cs with
  | ind n ih =>
    by_cases hslash : '/' ∈ cs
    · obtain ⟨front, back, rfl⟩ := List.append_of_mem hslash
      simp only [List.length_append, List.length_cons] at hn
      rw [Text.splitWhere_append_cons (p := (· = '/')) (decide_eq_true rfl), List.flatMap_append,
        ih _ (by omega) front rfl, ih _ (by omega) back rfl, decode_append_slash, List.cons_append]
    · have hnone : ∀ c ∈ cs, ¬ decide (c = '/') = true := fun c hc heq =>
        hslash (of_decide_eq_true heq ▸ hc)
      rw [Text.splitWhere_of_forall_not hnone, List.flatMap_singleton]

/-- What was encoded is decoded, up to percent signs that stood there before. -/
theorem decode_flatMap_byte (bytes : List UInt8) (rest : List Char) :
    decode (bytes.flatMap byte ++ rest) = bytes ++ decode rest := by
  induction bytes with
  | nil => rfl
  | cons b bytes ih => rw [List.flatMap_cons, List.append_assoc, decode_byte, ih, List.cons_append]

theorem decode_encode {marks cs : List Char} (h : '%' ∉ cs) :
    decode (encode marks cs) = cs.flatMap String.utf8EncodeChar := by
  induction cs with
  | nil => rfl
  | cons c cs ih =>
    obtain ⟨hc, hcs⟩ := not_or.mp (mt List.mem_cons.mpr h)
    rw [encode, List.flatMap_cons, ← encode, List.flatMap_cons, encodeChar]
    split
    · rw [decode_flatMap_byte, ih hcs]
    · rw [List.singleton_append, decode_cons (Ne.symm hc), ih hcs]

end Percent

namespace Uri

variable {u v : Uri}

/-- The bytes that a path stands for; a drive at its end gets the slash of its folder. -/
def pathBytes (path : List Char) : List UInt8 :=
  if endsWithDrive (Percent.decode path) then Percent.decode path ++ [FilePath.slash]
  else Percent.decode path

theorem fileName_of_slash (hu : u.host = none) (h : u.path.head? = some '/') :
    u.fileName = Text.Utf8.decodeLossy (pathBytes u.path) := by
  obtain ⟨rest, hpath⟩ := List.head?_eq_some_iff.mp h
  simp only [fileName, filePath?, hu, hpath, Percent.flatMap_splitWhere, pathBytes,
    Percent.decode_slash]
  rfl

theorem fileName_of_not_slash (h : u.path.head? ≠ some '/') :
    u.fileName = String.ofList u.path := by
  have hnone : u.filePath? = none := by
    unfold filePath?
    split
    · rfl
    · split
      next rest hpath => exact absurd (by rw [hpath]; rfl) h
      next => rfl
  simp only [fileName, hnone]

/-- Parts of a text that are shown by one character: broken bytes are shown by the replacement
character. -/
def LookAlike (x y : Option Char) : Prop :=
  x = y ∨ (x = none ∨ x = some '\ufffd') ∧ (y = none ∨ y = some '\ufffd')

theorem lookAlike_iff {x y : Option Char} :
    x.getD '\ufffd' = y.getD '\ufffd' ↔ LookAlike x y := by
  cases x <;> cases y <;> simp [LookAlike] <;> grind

theorem decodeLossy_eq_iff {a b : List UInt8} :
    Text.Utf8.decodeLossy a = Text.Utf8.decodeLossy b ↔
      List.Forall₂ LookAlike (Text.Utf8.decode a) (Text.Utf8.decode b) := by
  rw [Text.Utf8.decodeLossy, Text.Utf8.decodeLossy, String.ofList_inj, ← List.forall₂_eq_eq_eq,
    List.forall₂_map_left_iff, List.forall₂_map_right_iff]
  simp only [lookAlike_iff]

/-- The paths are one name: a path without a slash at its front is a name as it is, and any other is
decoded. -/
inductive SameName (p q : List Char) : Prop where
  | asWritten (hp : p.head? ≠ some '/') (h : p = q)
  | decoded (hp : p.head? = some '/') (hq : q.head? = some '/')
    (h : List.Forall₂ LookAlike (Text.Utf8.decode (pathBytes p)) (Text.Utf8.decode (pathBytes q)))

/-- A decoded name begins with the slash of its path. -/
theorem head?_decodeLossy_pathBytes {path : List Char} (h : path.head? = some '/') :
    (Text.Utf8.decodeLossy (pathBytes path)).toList.head? = some '/' := by
  obtain ⟨rest, rfl⟩ := List.head?_eq_some_iff.mp h
  obtain ⟨bytes, hbytes⟩ : ∃ bytes, pathBytes ('/' :: rest) = FilePath.slash :: bytes := by
    unfold pathBytes
    rw [Percent.decode_slash]
    split <;> exact ⟨_, rfl⟩
  rw [hbytes, Text.Utf8.decodeLossy, String.toList_ofList]
  rfl

/-- No name is both decoded and as it was written. -/
theorem fileName_ne (hu : u.host = none) (hp : u.path.head? = some '/')
    (hq : v.path.head? ≠ some '/') : u.fileName ≠ v.fileName := by
  intro h
  have hslash := head?_decodeLossy_pathBytes hp
  rw [← fileName_of_slash hu hp, h, fileName_of_not_slash hq, String.toList_ofList] at hslash
  exact hq hslash

theorem sameName_iff (hu : u.host = none) (hv : v.host = none) :
    SameName u.path v.path ↔ u.fileName = v.fileName := by
  constructor
  · rintro (⟨hp, h⟩ | ⟨hp, hq, h⟩)
    · rw [fileName_of_not_slash hp, fileName_of_not_slash (h ▸ hp), h]
    · rw [fileName_of_slash hu hp, fileName_of_slash hv hq, decodeLossy_eq_iff]
      exact h
  · intro h
    by_cases hp : u.path.head? = some '/' <;> by_cases hq : v.path.head? = some '/'
    · rw [fileName_of_slash hu hp, fileName_of_slash hv hq, decodeLossy_eq_iff] at h
      exact .decoded hp hq h
    · exact absurd h (fileName_ne hu hp hq)
    · exact absurd h.symm (fileName_ne hv hq hp)
    · rw [fileName_of_not_slash hp, fileName_of_not_slash hq, String.ofList_inj] at h
      exact .asWritten hp h

/-- A path that was encoded, and held no percent signs before, is the name of its document. -/
theorem fileName_encode {marks cs : List Char} (hu : u.host = none)
    (hpath : u.path = Percent.encode marks cs) (hcs : '%' ∉ cs) (hslash : u.path.head? = some '/')
    (hdrive : endsWithDrive (Percent.decode u.path) = false) : u.fileName = String.ofList cs := by
  rw [fileName_of_slash hu hslash, pathBytes, if_neg (by simp [hdrive]), hpath,
    Percent.decode_encode hcs]
  have hencode := Text.Utf8.decodeLossy_encode (String.ofList cs)
  rwa [Text.Utf8.encode, String.toList_ofList] at hencode

/-- **Documents are known by the path alone**, so those of one name share the results of one
text. -/
theorem fileName_eq_iff (hu : u.host = none) (hv : v.host = none) :
    (u.fileName = v.fileName ↔ SameName u.path v.path) ∧
    ∀ text text', ResultCache.key text u.fileName = ResultCache.key text' v.fileName ↔
      SameName u.path v.path ∧ digestOf text = digestOf text' := by
  refine ⟨(sameName_iff hu hv).symm, fun text text' => ?_⟩
  rw [ResultCache.key_inj, sameName_iff hu hv]

/-- A space that is encoded once more is another name. -/
theorem fileName_encoded_twice :
    let u : Uri := ⟨"file".toList, some [], none, "/a%20b.tsx".toList, none, none⟩
    let v : Uri := ⟨"file".toList, some [], none, "/a%2520b.tsx".toList, none, none⟩
    u.host = none ∧ v.host = none ∧ ¬ SameName u.path v.path ∧
      ∀ text, ResultCache.key text u.fileName ≠ ResultCache.key text v.fileName := by
  intro u v
  have hnames : u.fileName ≠ v.fileName := by decide +kernel
  obtain ⟨hname, hkey⟩ := fileName_eq_iff (u := u) (v := v) rfl rfl
  have hnot : ¬ SameName u.path v.path := fun h => hnames (hname.mpr h)
  exact ⟨rfl, rfl, hnot, fun text heq => hnot ((hkey text text).mp heq).1⟩

/-- A path with an encoded blank, in the address of a file. -/
def blankFile : Uri := ⟨"file".toList, some [], none, "/vroot/a%20b.tsx".toList, none, none⟩

/-- The same path in the address of a document that is no file. -/
def blankUntitled : Uri := ⟨"untitled".toList, none, none, "/vroot/a%20b.tsx".toList, none, none⟩

/-- A document that is no file shares its name and its results with a file: the scheme is not looked
at, and the path is decoded. -/
theorem fileName_untitled : ∃ u v : Uri,
    ofString "file:///vroot/a%20b.tsx" = .ok u ∧ ofString "untitled:/vroot/a%20b.tsx" = .ok v ∧
    u.toText = "file:///vroot/a%20b.tsx" ∧ v.toText = "untitled:/vroot/a%20b.tsx" ∧ u ≠ v ∧
    (u.host = none ∧ u.query = none ∧ u.fragment = none) ∧
    (v.host = none ∧ v.query = none ∧ v.fragment = none) ∧
    u.fileName = "/vroot/a b.tsx" ∧ v.fileName = "/vroot/a b.tsx" ∧
    ∀ text, ResultCache.key text u.fileName = ResultCache.key text v.fileName := by
  have hfile : ofString "file:///vroot/a%20b.tsx" = .ok blankFile :=
    toOption_eq_some_iff.mp (by decide +kernel)
  have huntitled : ofString "untitled:/vroot/a%20b.tsx" = .ok blankUntitled :=
    toOption_eq_some_iff.mp (by decide +kernel)
  have htexts : blankFile.toText = "file:///vroot/a%20b.tsx" ∧
      blankUntitled.toText = "untitled:/vroot/a%20b.tsx" := by decide +kernel
  have hne : blankFile ≠ blankUntitled := by decide +kernel
  have hnames : blankFile.fileName = "/vroot/a b.tsx" ∧
      blankUntitled.fileName = "/vroot/a b.tsx" := by decide +kernel
  exact ⟨blankFile, blankUntitled, hfile, huntitled, htexts.1, htexts.2, hne, ⟨rfl, rfl, rfl⟩,
    ⟨rfl, rfl, rfl⟩, hnames.1, hnames.2, fun text => by rw [hnames.1, hnames.2]⟩

end Uri

end MemoHints
