import Mathlib.Data.List.Nodup
import MemoHints.Debounce
import MemoHints.Proofs.Entries

/-!
# What a debouncer does to one call

The operations change calls by their numbers: here is what each leaves at a number and in the table,
and that the table holds the waiting calls, each under its key.
-/

namespace MemoHints

/-- The key under which a call waits. -/
def DebouncedCall.waitingKey {β α : Type} (c : DebouncedCall β α) : Option String :=
  match c.stage with
  | .waiting => some c.key
  | _ => none

theorem DebouncedCall.waitingKey_eq_some_iff {β α : Type} {c : DebouncedCall β α} {key : String} :
    c.waitingKey = some key ↔ c.stage = .waiting ∧ c.key = key := by
  obtain ⟨_, _, _, _, stage, _⟩ := c
  cases stage <;> simp [waitingKey]

namespace Debouncer

variable {β α : Type} {d : Debouncer β α}

/-- The key under which the call of a number waits. -/
def waitsUnder (d : Debouncer β α) (generation : Nat) : Option String :=
  (d.call? generation).bind (·.waitingKey)

def remove (d : Debouncer β α) (generation : Nat) : Debouncer β α :=
  { d with calls := d.calls.filter (·.generation ≠ generation) }

/-- The answer of a call that has one, if anyone waits for it, and the calls without it. -/
def deliverTo (d : Debouncer β α) (generation : Nat) : Option (Option α) × Debouncer β α :=
  match d.call? generation with
  | some ⟨_, _, _, _, .done answer, awaited⟩ =>
    (if awaited then some answer else none, d.remove generation)
  | _ => (none, d)

/-- The numbers of the calls. -/
def numbers (d : Debouncer β α) : List Nat := d.calls.map (·.generation)

theorem call?_eq_none_iff {g : Nat} : d.call? g = none ↔ g ∉ d.numbers := by
  simp [call?, numbers]

theorem numbers_update (d : Debouncer β α) (g : Nat) {f : DebouncedCall β α → DebouncedCall β α}
    (hf : ∀ c, (f c).generation = c.generation) : (d.update g f).numbers = d.numbers := by
  rw [numbers, update, List.map_map]
  refine List.map_congr_left fun c _ => ?_
  by_cases h : c.generation = g <;> simp [h, hf]

theorem numbers_stage (d : Debouncer β α) (g : Nat) (stage : CallStage α) :
    (d.update g fun c => { c with stage }).numbers = d.numbers := by
  rw [numbers_update]
  exact fun _ => rfl

theorem numbers_abandon (d : Debouncer β α) (g : Nat) : (d.abandon g).numbers = d.numbers := by
  rw [abandon, numbers_update]
  exact fun _ => rfl

theorem numbers_wait (d : Debouncer β α) (g due : Nat) :
    (d.update g fun c => { c with stage := .waiting, due }).numbers = d.numbers := by
  rw [numbers_update]
  exact fun _ => rfl

theorem generation_of_call? {g : Nat} {c : DebouncedCall β α} (h : d.call? g = some c) :
    c.generation = g := by
  simpa using List.find?_some h

theorem call?_update (d : Debouncer β α) (g : Nat) {f : DebouncedCall β α → DebouncedCall β α}
    (hf : ∀ c, (f c).generation = c.generation) (g' : Nat) :
    (d.update g f).call? g' = if g' = g then (d.call? g').map f else d.call? g' := by
  have hsame : (fun c => decide (DebouncedCall.generation c = g')) ∘
      (fun c => if c.generation = g then f c else c) = fun c => decide (c.generation = g') := by
    funext c
    by_cases h : c.generation = g <;> simp [h, hf]
  rw [call?, update, List.find?_map, hsame]
  change (d.call? g').map _ = _
  cases hfound : d.call? g' with
  | none => simp
  | some c =>
    have hc := generation_of_call? hfound
    by_cases h : g' = g <;> simp [hc, h]

theorem call?_stage (d : Debouncer β α) (g : Nat) (stage : CallStage α) (g' : Nat) :
    (d.update g fun c => { c with stage }).call? g' =
      if g' = g then (d.call? g').map fun c => { c with stage } else d.call? g' := by
  rw [call?_update]
  exact fun _ => rfl

theorem call?_wait (d : Debouncer β α) (g due g' : Nat) :
    (d.update g fun c => { c with stage := .waiting, due }).call? g' =
      if g' = g then (d.call? g').map fun c => { c with stage := .waiting, due }
      else d.call? g' := by
  rw [call?_update]
  exact fun _ => rfl

theorem call?_abandon (d : Debouncer β α) (g g' : Nat) :
    (d.abandon g).call? g' =
      if g' = g then (d.call? g').map fun c => { c with awaited := false } else d.call? g' := by
  rw [abandon, call?_update]
  exact fun _ => rfl

theorem abandon_of_none {g : Nat} (h : d.call? g = none) : d.abandon g = d := by
  have hnot : ∀ c ∈ d.calls, c.generation ≠ g := by simpa [call?] using h
  rw [abandon, update]
  congr 1
  refine (List.map_congr_left fun c hc => ?_).trans d.calls.map_id
  rw [if_neg (hnot c hc), id]

theorem call?_number (d : Debouncer β α) (key : String) (work : β) (g : Nat) :
    (d.number key work).2.call? g =
      (d.call? g).or (if g = d.next then some { generation := d.next, key, work } else none) := by
  rw [number, call?, List.find?_append, call?]
  by_cases h : g = d.next
  · subst h
    simp
  · simp [h, Ne.symm h]

theorem insert_of_none {g : Nat} {c : DebouncedCall β α} (h : d.call? g = some c)
    (hnone : d.pending.lookup c.key = none) (due : Nat) :
    d.insert g due = { d.update g fun c => { c with stage := .waiting, due } with
      pending := (c.key, g) :: d.pending.filter (·.1 ≠ c.key) } := by
  simp only [insert, h, hnone]

theorem insert_of_some {g older : Nat} {c : DebouncedCall β α} (h : d.call? g = some c)
    (holder : d.pending.lookup c.key = some older) (due : Nat) :
    d.insert g due =
      { (d.supersede older).update g fun c => { c with stage := .waiting, due } with
        pending := (c.key, g) :: d.pending.filter (·.1 ≠ c.key) } := by
  simp only [insert, h, holder]

/-- The call that enters waits, and the one that waited under its key is answered with nothing. -/
theorem call?_insert {g : Nat} {c : DebouncedCall β α} (h : d.call? g = some c)
    (hnew : d.pending.lookup c.key ≠ some g) (due g' : Nat) :
    (d.insert g due).call? g' =
      if g' = g then some { c with stage := .waiting, due }
      else if d.pending.lookup c.key = some g' then
        (d.call? g').map fun c => { c with stage := .done none }
      else d.call? g' := by
  cases holder : d.pending.lookup c.key with
  | none =>
    rw [insert_of_none h holder]
    refine (d.call?_wait g due g').trans ?_
    by_cases hg : g' = g
    · subst hg
      rw [if_pos rfl, if_pos rfl, h]
      rfl
    · rw [if_neg hg, if_neg hg, if_neg (by simp)]
  | some older =>
    have hne : g ≠ older := fun heq => hnew (heq ▸ holder)
    rw [insert_of_some h holder]
    refine ((d.supersede older).call?_wait g due g').trans ?_
    have hsuperseded := d.call?_stage older (.done none) g'
    by_cases hg : g' = g
    · subst hg
      rw [if_pos rfl, if_pos rfl, supersede, hsuperseded, if_neg hne, h]
      rfl
    · rw [if_neg hg, if_neg hg, supersede, hsuperseded]
      simp only [Option.some.injEq, eq_comm]

theorem lookup_insert {g : Nat} {c : DebouncedCall β α} (h : d.call? g = some c) (due : Nat)
    (key : String) :
    (d.insert g due).pending.lookup key =
      if key = c.key then some g else d.pending.lookup key := by
  have hpending : (d.insert g due).pending = (c.key, g) :: d.pending.filter (·.1 ≠ c.key) := by
    cases holder : d.pending.lookup c.key with
    | none => rw [insert_of_none h holder]
    | some older => rw [insert_of_some h holder]
  rw [hpending]
  by_cases hkey : key = c.key
  · subst hkey
    rw [if_pos rfl, List.lookup_cons_self]
  · rw [if_neg hkey, lookup_cons_of_ne g hkey, lookup_filter_of_ne _ hkey]

theorem next_insert {g : Nat} {c : DebouncedCall β α} (h : d.call? g = some c) (due : Nat) :
    (d.insert g due).next = d.next := by
  cases holder : d.pending.lookup c.key with
  | none => rw [insert_of_none h holder, update]
  | some older => rw [insert_of_some h holder, update, supersede, update]

theorem numbers_insert {g : Nat} {c : DebouncedCall β α} (h : d.call? g = some c) (due : Nat) :
    (d.insert g due).numbers = d.numbers := by
  cases holder : d.pending.lookup c.key with
  | none =>
    rw [insert_of_none h holder]
    exact d.numbers_wait g due
  | some older =>
    rw [insert_of_some h holder]
    exact ((d.supersede older).numbers_wait g due).trans (d.numbers_stage older _)

/-- A timer that finds its own call in the table takes it out. -/
theorem expire_of_pending {g : Nat} {c : DebouncedCall β α} (h : d.call? g = some c)
    (hpending : d.pending.lookup c.key = some g) :
    d.expire g = (some c.work, { d.update g (fun c => { c with stage := .running }) with
      pending := d.pending.filter (·.1 ≠ c.key) }) := by
  simp only [expire, h, if_pos hpending]
  rfl

/-- A timer that does not find its own call in the table does nothing. -/
theorem expire_of_not_pending {g : Nat}
    (h : ∀ c, d.call? g = some c → d.pending.lookup c.key ≠ some g) : d.expire g = (none, d) := by
  cases hcall : d.call? g with
  | none => simp only [expire, hcall]
  | some c => simp only [expire, hcall, if_neg (h c hcall)]

/-- All that a timer does when it looks into the table. -/
theorem expire_cases (d : Debouncer β α) (g : Nat) :
    (d.expire g = (none, d) ∧ ∀ c, d.call? g = some c → d.pending.lookup c.key ≠ some g) ∨
    ∃ c, d.call? g = some c ∧ d.pending.lookup c.key = some g ∧
      d.expire g = (some c.work, { d.update g (fun c => { c with stage := .running }) with
        pending := d.pending.filter (·.1 ≠ c.key) }) := by
  by_cases hfound : ∃ c, d.call? g = some c ∧ d.pending.lookup c.key = some g
  · obtain ⟨c, hcall, hpending⟩ := hfound
    exact .inr ⟨c, hcall, hpending, expire_of_pending hcall hpending⟩
  · have hnot : ∀ c, d.call? g = some c → d.pending.lookup c.key ≠ some g :=
      fun c hcall hpending => hfound ⟨c, hcall, hpending⟩
    exact .inl ⟨expire_of_not_pending hnot, hnot⟩

theorem eq_of_expire_none {g : Nat} {d' : Debouncer β α} (h : d.expire g = (none, d')) :
    d' = d := by
  obtain ⟨hexpire, -⟩ | ⟨c, -, -, hexpire⟩ := d.expire_cases g <;> rw [hexpire] at h <;> cases h
  rfl

theorem deliverTo_of_done {g : Nat} {c : DebouncedCall β α} {answer : Option α}
    (h : d.call? g = some c) (hdone : c.stage = .done answer) :
    d.deliverTo g = (if c.awaited then some answer else none, d.remove g) := by
  obtain ⟨_, _, _, _, _, awaited⟩ := c
  cases hdone
  simp only [deliverTo, h]

theorem deliverTo_of_not_done {g : Nat}
    (h : ∀ c, d.call? g = some c → ∀ answer, c.stage ≠ .done answer) :
    d.deliverTo g = (none, d) := by
  unfold deliverTo
  split
  · next hcall => exact absurd rfl (h _ hcall _)
  · rfl

theorem call?_remove (d : Debouncer β α) (g g' : Nat) :
    (d.remove g).call? g' = if g' = g then none else d.call? g' := by
  rw [call?, remove, List.find?_filter, call?]
  by_cases h : g' = g
  · subst h
    rw [if_pos rfl]
    simp
  · rw [if_neg h]
    congr 1
    funext c
    by_cases hc : c.generation = g' <;> simp [hc, h]

section Distinct

variable {before after : List (DebouncedCall β α)} {c : DebouncedCall β α}

theorem generation_ne_of_calls_eq (hd : d.numbers.Nodup) (hcalls : d.calls = before ++ c :: after) :
    ∀ c' ∈ before ++ after, c'.generation ≠ c.generation := by
  rw [numbers, hcalls, List.map_append, List.map_cons, List.nodup_middle, ← List.map_append] at hd
  intro c' hc' heq
  exact (List.nodup_cons.mp hd).1 (heq ▸ List.mem_map_of_mem hc')

theorem call?_of_calls_eq (hd : d.numbers.Nodup) (hcalls : d.calls = before ++ c :: after) :
    d.call? c.generation = some c := by
  have hne := generation_ne_of_calls_eq hd hcalls
  rw [call?, hcalls, List.find?_append, List.find?_eq_none.mpr, Option.none_or,
    List.find?_cons_of_pos (by simp)]
  exact fun c' hc' => by simpa using hne c' (List.mem_append_left _ hc')

theorem remove_of_calls_eq (hd : d.numbers.Nodup) (hcalls : d.calls = before ++ c :: after) :
    d.remove c.generation = { d with calls := before ++ after } := by
  have hne := generation_ne_of_calls_eq hd hcalls
  rw [remove, hcalls, List.filter_append, List.filter_cons_of_neg (by simp), ← List.filter_append,
    List.filter_eq_self.mpr fun c' hc' => by simpa using hne c' hc']

end Distinct

/-- The table holds the waiting calls, each under its key. -/
def PendingWaits (d : Debouncer β α) : Prop :=
  ∀ key g, d.pending.lookup key = some g ↔ d.waitsUnder g = some key

theorem waitsUnder_insert {g : Nat} {c : DebouncedCall β α} (h : d.call? g = some c)
    (hnew : d.pending.lookup c.key ≠ some g) (due g' : Nat) :
    (d.insert g due).waitsUnder g' =
      if g' = g then some c.key
      else if d.pending.lookup c.key = some g' then none
      else d.waitsUnder g' := by
  rw [waitsUnder, call?_insert h hnew]
  split_ifs
  · rfl
  · cases d.call? g' <;> rfl
  · rfl

theorem PendingWaits.exists_of_lookup (hd : d.PendingWaits) {key : String} {g : Nat}
    (hpending : d.pending.lookup key = some g) :
    ∃ c, d.call? g = some c ∧ c.stage = .waiting ∧ c.key = key := by
  obtain ⟨c, hcall, hwaits⟩ := Option.bind_eq_some_iff.mp ((hd key g).mp hpending)
  exact ⟨c, hcall, DebouncedCall.waitingKey_eq_some_iff.mp hwaits⟩

theorem PendingWaits.lookup_ne (hd : d.PendingWaits) {g : Nat} {c : DebouncedCall β α}
    (h : d.call? g = some c) (hstage : c.stage ≠ .waiting) (key : String) :
    d.pending.lookup key ≠ some g := fun hpending => by
  obtain ⟨c', hcall, hwaiting, -⟩ := hd.exists_of_lookup hpending
  exact hstage (Option.some.inj (hcall.symm.trans h) ▸ hwaiting)

theorem PendingWaits.insert (hd : d.PendingWaits) {g : Nat} {c : DebouncedCall β α}
    (h : d.call? g = some c) (hstage : c.stage ≠ .waiting) (due : Nat) :
    (d.insert g due).PendingWaits := by
  intro key g'
  rw [lookup_insert h, waitsUnder_insert h (hd.lookup_ne h hstage c.key)]
  have hnew := hd.lookup_ne h hstage key
  have holder := hd c.key g'
  by_cases hkey : key = c.key
  · subst hkey
    by_cases hg : g' = g
    · simp [hg]
    · simp [hg, Ne.symm hg, ← holder]
  · by_cases hg : g' = g
    · simp [hg, hkey, hnew, Ne.symm hkey]
    · by_cases hpending : d.pending.lookup c.key = some g'
      · simp [hg, hkey, hpending, hd key g', holder.mp hpending, Ne.symm hkey]
      · simp [hg, hkey, hpending, hd key g']

theorem PendingWaits.start (hd : d.PendingWaits) {g : Nat} {c : DebouncedCall β α}
    (hpending : d.pending.lookup c.key = some g) :
    PendingWaits { d.update g (fun c => { c with stage := .running }) with
      pending := d.pending.filter (·.1 ≠ c.key) } := by
  intro key g'
  have hwaits : waitsUnder { d.update g (fun c => { c with stage := .running }) with
      pending := d.pending.filter (·.1 ≠ c.key) } g' =
        if g' = g then none else d.waitsUnder g' := by
    refine (congrArg (·.bind (·.waitingKey)) (d.call?_stage g .running g')).trans ?_
    by_cases hg : g' = g
    · rw [if_pos hg, if_pos hg]
      cases d.call? g' <;> rfl
    · rw [if_neg hg, if_neg hg, waitsUnder]
  rw [hwaits]
  by_cases hkey : key = c.key
  · have holder := hd c.key g'
    rw [hpending] at holder
    subst hkey
    rw [lookup_filter_self]
    by_cases hg : g' = g
    · simp [hg]
    · simp [hg, ← holder, Ne.symm hg]
  · rw [lookup_filter_of_ne _ hkey, hd key g']
    by_cases hg : g' = g
    · simp [hg, (hd c.key g).mp hpending, Ne.symm hkey]
    · simp [hg]

end Debouncer

end MemoHints
