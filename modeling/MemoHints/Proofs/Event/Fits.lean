import MemoHints.Proofs.Event.Fields

/-!
# What reading an event leaves

Not every event can come out of a reader: numbers have 32 bits, a kind with a name of its own is
kept as that kind, and what the compiler suggests is kept in sorted form.  Nothing else is lost in
reading, so these conditions (`DiagnosticEvent.Fits`) are all that writing has to rely on.
-/

namespace MemoHints

open Json RecordType

variable {v : Json}

namespace Json

theorem of_readOption {α : Type} {read : Read α} {o : Option α} (h : readOption read v = .ok o) :
    ∀ x ∈ o, read v = .ok x := by
  rintro x rfl
  unfold readOption at h
  split at h
  · cases h
  · cases hread : read v with
    | error e => simp [hread, Except.map] at h
    | ok y => simpa [hread, Except.map] using h

theorem fits_of_readWord {o : Option Nat} (h : readOption readWord v = .ok o) :
    ∀ n ∈ o, n < 2 ^ 32 := by
  intro n hn
  obtain rfl : o = some n := hn
  cases v with
  | int k =>
    simp only [readOption, readWord, readNat, readInt, except_map_eq] at h
    split at h
    · next hk =>
      cases h
      have hbound := hk.2
      omega
    · cases h
  | null | bool _ | float _ | str _ | arr _ | obj _ => cases h

theorem readOption_nat {n : Nat} (h : n < 2 ^ 32) : readOption readWord (nat n) = .ok (some n) := by
  have hbounds : (0 : Int) ≤ n ∧ (n : Int) ≤ 2 ^ 32 - 1 := by omega
  simp only [readOption, nat, readWord, readNat, readInt, if_pos hbounds]
  rfl

theorem part_of_mem_lenientList {α : Type} {read : Read α} {x : α}
    (h : x ∈ lenientList read v) : ∃ w, Part w v ∧ read w = .ok x := by
  cases hlist : readList read v with
  | error e => simp [lenientList, hlist, Except.toOption] at h
  | ok xs =>
    have hx : x ∈ xs := by simpa [lenientList, hlist, Except.toOption] using h
    cases v with
    | arr items =>
      obtain ⟨w, hw, hread⟩ := exists_of_mem_mapM hlist hx
      exact ⟨w, .item hw, hread⟩
    | null | bool _ | int _ | float _ | str _ | obj _ => cases hlist

end Json

/-- Its numbers have 32 bits. -/
structure SourcePoint.Fits (point : SourcePoint) : Prop where
  line : ∀ n ∈ point.line, n < 2 ^ 32
  column : ∀ n ∈ point.column, n < 2 ^ 32
  index : ∀ n ∈ point.index, n < 2 ^ 32

structure SourceRange.Fits (range : SourceRange) : Prop where
  start : ∀ point ∈ range.start, point.Fits
  finish : ∀ point ∈ range.finish, point.Fits

structure DetailEntry.Fits (entry : DetailEntry) : Prop where
  loc : ∀ range ∈ entry.loc, range.Fits

/-- Its suggestions are sorted, and what is in it fits. -/
inductive EventDetail.Fits : EventDetail → Prop where
  | intro {detail : EventDetail} (suggestions : ∀ s ∈ detail.suggestions, s.sorted = s)
    (loc : ∀ range ∈ detail.loc, range.Fits) (details : ∀ entry ∈ detail.details, entry.Fits)
    (options : ∀ nested ∈ detail.options, Fits nested) : Fits detail

/-- No kind that has a name of its own is kept as another, and what is in it fits. -/
structure DiagnosticEvent.Fits (event : DiagnosticEvent) : Prop where
  kind : ∀ kind ∈ event.kind, EventKind.ofName kind.name = kind
  fnLoc : ∀ range ∈ event.fnLoc, range.Fits
  detail : ∀ detail ∈ event.detail, detail.Fits

theorem SourcePoint.fits_of_read {point : SourcePoint} (h : recordType.read v = .ok point) :
    point.Fits := by
  refine read_induction ⟨nofun, nofun, nofun⟩ (fun x field w y _ hx hset => ?_) h
  simp only [recordType] at hset
  split at hset
  · obtain ⟨o, ho, hset⟩ := bind_eq_ok.mp hset
    cases hset
    exact { hx with line := fits_of_readWord ho }
  · obtain ⟨o, ho, hset⟩ := bind_eq_ok.mp hset
    cases hset
    exact { hx with column := fits_of_readWord ho }
  · obtain ⟨o, ho, hset⟩ := bind_eq_ok.mp hset
    cases hset
    exact { hx with index := fits_of_readWord ho }
  · cases hset
    exact hx

theorem SourceRange.fits_of_read {range : SourceRange} (h : recordType.read v = .ok range) :
    range.Fits := by
  refine read_induction ⟨nofun, nofun⟩ (fun x field w y _ hx hset => ?_) h
  simp only [recordType] at hset
  split at hset
  · obtain ⟨o, ho, hset⟩ := bind_eq_ok.mp hset
    cases hset
    have hstart := fun point hpoint => SourcePoint.fits_of_read (of_readOption ho point hpoint)
    exact { hx with start := hstart }
  · obtain ⟨o, ho, hset⟩ := bind_eq_ok.mp hset
    cases hset
    have hfinish := fun point hpoint => SourcePoint.fits_of_read (of_readOption ho point hpoint)
    exact { hx with finish := hfinish }
  · cases hset
    exact hx

theorem DetailEntry.fits_of_read {entry : DetailEntry} (h : recordType.read v = .ok entry) :
    entry.Fits := by
  refine read_induction ⟨nofun⟩ (fun x field w y _ hx hset => ?_) h
  simp only [recordType] at hset
  split at hset
  · obtain ⟨o, -, hset⟩ := bind_eq_ok.mp hset
    cases hset
    exact ⟨hx.loc⟩
  · cases hset
    exact ⟨fun range hrange => SourceRange.fits_of_read (toOption_eq_some_iff.mp hrange)⟩
  · obtain ⟨o, -, hset⟩ := bind_eq_ok.mp hset
    cases hset
    exact ⟨hx.loc⟩
  · cases hset
    exact hx

theorem EventDetail.fits_of_read {v : Json} {detail : EventDetail} (hsorted : v.sorted = v)
    (h : read v = .ok detail) : detail.Fits := by
  rw [read_eq] at h
  refine read_induction (.intro nofun nofun nofun nofun) (fun x field w y hw hx hset => ?_) h
  obtain ⟨hsuggestions, hloc, hdetails, hoptions⟩ := hx
  have hsorted' := hw.sorted_eq hsorted
  simp only [wholeType, recordType] at hset
  split at hset
  · cases hset
    refine .intro hsuggestions hloc hdetails fun nested hnested => ?_
    have hsize := hw.sizeOf_lt
    exact fits_of_read hsorted' (toOption_eq_some_iff.mp hnested)
  · split at hset
    · obtain ⟨o, -, hset⟩ := bind_eq_ok.mp hset
      cases hset
      exact .intro hsuggestions hloc hdetails hoptions
    · obtain ⟨o, -, hset⟩ := bind_eq_ok.mp hset
      cases hset
      exact .intro hsuggestions hloc hdetails hoptions
    · cases hset
      refine .intro (fun s hs => ?_) hloc hdetails hoptions
      obtain ⟨u, hu, hread⟩ := part_of_mem_lenientList hs
      cases hread
      exact hu.sorted_eq hsorted'
    · cases hset
      exact .intro hsuggestions
        (fun range hrange => SourceRange.fits_of_read (toOption_eq_some_iff.mp hrange))
        hdetails hoptions
    · cases hset
      refine .intro hsuggestions hloc (fun entry hentry => ?_) hoptions
      obtain ⟨u, -, hread⟩ := part_of_mem_lenientList hentry
      exact DetailEntry.fits_of_read hread
    · cases hset
      exact .intro hsuggestions hloc hdetails hoptions
termination_by sizeOf v
decreasing_by exact hsize

theorem EventKind.name_ofName (s : String) : (ofName s).name = s := by
  unfold ofName
  split <;> rfl

theorem DiagnosticEvent.fits_of_read {event : DiagnosticEvent} (h : read v = .ok event) :
    event.Fits := by
  refine read_induction ⟨nofun, nofun, nofun⟩ (fun x field w y _ hx hset => ?_) h
  simp only [recordType] at hset
  split at hset
  · obtain ⟨o, -, hset⟩ := bind_eq_ok.mp hset
    cases hset
    refine { hx with kind := fun kind hkind => ?_ }
    obtain ⟨s, -, rfl⟩ := Option.map_eq_some_iff.mp hkind
    rw [EventKind.name_ofName]
  · obtain ⟨o, -, hset⟩ := bind_eq_ok.mp hset
    cases hset
    exact { hx with }
  · cases hset
    exact { hx with
      fnLoc := fun range hrange => SourceRange.fits_of_read (toOption_eq_some_iff.mp hrange) }
  · obtain ⟨o, -, hset⟩ := bind_eq_ok.mp hset
    cases hset
    exact { hx with }
  · cases hset
    exact { hx with
      detail := fun detail hdetail =>
        EventDetail.fits_of_read (sorted_sorted w) (toOption_eq_some_iff.mp hdetail) }
  · cases hset
    exact hx

end MemoHints
