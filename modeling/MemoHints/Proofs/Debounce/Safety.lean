import MemoHints.Proofs.Debounce.Stories
import MemoHints.Server.Basic

/-!
# No call is lost

What a caller and the one who gives the work may rely on (`DebounceRun.Safe`), in whatever order the
steps of the calls come.  The main statement is `DebounceRun.takeAll_safe`.  The operations of
`Debouncer` that do several steps at once are such orders, so a server's debouncer is in no other
states.
-/

namespace MemoHints

namespace DebounceRun

variable {β α : Type} {s : DebounceRun β α}

/-- What may be relied on in a state. -/
structure Safe (s : DebounceRun β α) : Prop where
  /-- The work of a superseded call never begins, and nothing is its only answer. -/
  superseded : ∀ g, .superseded ∈ s.story g →
    (∀ more, .started ∉ (s.takeAll more).story g) ∧
      (∀ answer, .resolved answer ∈ s.story g → answer = none) ∧
      (g ∉ s.dropped → .resolved none ∈ (s.take (.deliver g)).story g)
  starts_once : ∀ g, (s.story g).countP CallEvent.isStart ≤ 1
  resolves_once : ∀ g, (s.story g).countP CallEvent.isResolution ≤ 1
  /-- A value that a call is answered with comes from its own work. -/
  own_value : ∀ g v, .resolved (some v) ∈ s.story g → .returned (.value v) ∈ s.story g
  /-- What the work of a call returns is answered unless nobody waits for it. -/
  returned : ∀ g result, .returned result ∈ s.story g → g ∉ s.dropped →
    .resolved result.answer ∈ (s.take (.deliver g)).story g
  /-- Work that has begun is not stopped. -/
  started : ∀ g, .started ∈ s.story g → ∀ more, .superseded ∉ (s.takeAll more).story g
  /-- A timer takes no other call out of the table. -/
  other_entries : ∀ g g' key, g' ≠ g → s.debouncer.pending.lookup key = some g' →
    (s.take (.check g)).debouncer.pending.lookup key = some g'
  /-- The call of a key that entered last waits or has begun its work. -/
  latest : ∀ key g, latestOf key s.history = some g → .superseded ∉ s.story g ∧
    (s.debouncer.pending.lookup key = some g ∨ .started ∈ s.story g)
  /-- The timer of a waiting call begins its work. -/
  fires : ∀ key g, s.debouncer.pending.lookup key = some g →
    .started ∈ (s.takeAll [.wake g, .check g]).story g

/-- A timer takes no other call out of the table. -/
theorem lookup_take_check_of_ne {key : String} {g g' : Nat} (hne : g' ≠ g)
    (hpending : s.debouncer.pending.lookup key = some g') :
    (s.take (.check g)).debouncer.pending.lookup key = some g' := by
  obtain hcheck | ⟨hcheck, -⟩ | ⟨c, -, hlookup, hcheck⟩ := s.take_check_cases g <;> rw [hcheck]
  · exact hpending
  · exact hpending
  refine (lookup_filter_of_ne _ ?_).trans hpending
  rintro rfl
  exact hne (Option.some.inj (hpending.symm.trans hlookup))

namespace Sound

/-- A call that has its answer gives it to the one who waits for it. -/
theorem resolved_of_deliver (h : Sound s) {g : Nat} (hkept : g ∉ s.dropped) {event : CallEvent α}
    (hmem : event ∈ s.story g) {answer : Option α} (hanswer : event.answer? = some answer) :
    .resolved answer ∈ (s.take (.deliver g)).story g := by
  obtain hresolved | hdone := (h.calls g).life.resolved_or_done hkept hmem hanswer
  · exact mem_story_take hresolved _
  · obtain ⟨c, hcall, hstage⟩ := Option.map_eq_some_iff.mp hdone
    have hawaited := ((h.calls g).awaited c hcall).mpr hkept
    rw [take_deliver_of_awaited hcall hstage hawaited, story, storyIn_cons_self]
    exact List.mem_cons_self ..

/-- The timer of a waiting call wakes up and takes it out of the table. -/
theorem takeAll_wake_check (h : Sound s) {g : Nat} {c : DebouncedCall β α}
    (hcall : s.debouncer.call? g = some c) (hpending : s.debouncer.pending.lookup c.key = some g) :
    s.takeAll [.wake g, .check g] =
      { s with
        debouncer := { s.debouncer.update g (fun c => { c with stage := .running }) with
          pending := s.debouncer.pending.filter (·.1 ≠ c.key) }
        timers := Function.update (s.take (.wake g)).timers g .ended
        history := (g, .started) :: s.history } := by
  obtain ⟨c', hcall', hwaiting, -⟩ := h.pending.exists_of_lookup hpending
  have hawake := timers_take_wake ((h.calls g).timer c' hcall' hwaiting)
  change (s.take (.wake g)).take (.check g) = _
  have hwake := s.take_wake_eq g
  generalize (s.take (.wake g)).timers = timers at hawake hwake ⊢
  rw [hwake]
  exact take_check_of_pending (s := { s with timers }) hawake hcall hpending

theorem started_of_wake_check (h : Sound s) {key : String} {g : Nat}
    (hpending : s.debouncer.pending.lookup key = some g) :
    .started ∈ (s.takeAll [.wake g, .check g]).story g := by
  obtain ⟨c, hcall, -, rfl⟩ := h.pending.exists_of_lookup hpending
  rw [h.takeAll_wake_check hcall hpending, story, storyIn_cons_self]
  exact List.mem_cons_self ..

/-- The call of a key that entered last is not superseded. -/
theorem not_superseded_of_latest (h : Sound s) {key : String} {g : Nat}
    (hlast : latestOf key s.history = some g) : .superseded ∉ s.story g := by
  obtain hpending | hstarted := h.latest key g hlast
  · obtain ⟨c, hcall, hwaiting, -⟩ := h.pending.exists_of_lookup hpending
    have hlife := (h.soundAt_some hcall).life_of_stage hwaiting
    cases hstory : s.story g with
    | nil => nofun
    | cons event story =>
      rw [hstory] at hlife
      cases hlife
      nofun
  · exact fun hsuperseded => (h.calls g).life.not_started_of_superseded hsuperseded hstarted

theorem safe (h : Sound s) : Safe s where
  superseded g hsuperseded := by
    refine ⟨fun more => ?_, fun answer hresolved => ?_, fun hkept => ?_⟩
    · exact ((h.takeAll more).calls g).life.not_started_of_superseded
        (mem_story_takeAll hsuperseded more)
    · exact (h.calls g).life.eq_none_of_superseded hsuperseded hresolved
    · exact h.resolved_of_deliver hkept hsuperseded rfl
  starts_once g := (h.calls g).life.countP_isStart
  resolves_once g := (h.calls g).life.countP_isResolution
  own_value g v hresolved := (h.calls g).life.returned_of_resolved hresolved
  returned g result hreturned hkept := h.resolved_of_deliver hkept hreturned rfl
  started g hstarted more hsuperseded :=
    ((h.takeAll more).calls g).life.not_started_of_superseded hsuperseded
      (mem_story_takeAll hstarted more)
  other_entries _ _ _ hne hpending := lookup_take_check_of_ne hne hpending
  latest key g hlast := ⟨h.not_superseded_of_latest hlast, h.latest key g hlast⟩
  fires _ _ hpending := h.started_of_wake_check hpending

end Sound

/-- **No call is lost.**  Take any steps of any calls on any keys, in any order.  What may be relied
on holds in the state that they lead to. -/
theorem takeAll_safe (steps : List (DebounceStep β α)) :
    Safe (takeAll ({} : DebounceRun β α) steps) :=
  (sound_new.takeAll steps).safe

/-- A call enters after one with a larger number, whose timer has woken up already. -/
example :
    (takeAll ({} : DebounceRun Unit Nat) [.number "a" (), .number "a" (), .enter 1 0, .wake 1,
      .enter 0 0, .check 1, .deliver 1, .wake 0, .check 0, .finish 0 (.value 7)]).history =
    [(0, .returned (.value 7)), (0, .started), (1, .resolved none), (0, .entered "a"),
      (1, .superseded), (1, .entered "a")] := by
  decide

end DebounceRun

/-! ## Operations of several steps -/

namespace DebounceRun

variable {β α : Type} {s : DebounceRun β α}

/-- Calls that give their answers one after the other give those of `Debouncer.deliver`. -/
theorem takeAll_deliver_of_calls_eq (rest : List (DebouncedCall β α)) :
    ∀ {s : DebounceRun β α} {before : List (DebouncedCall β α)},
      s.debouncer.numbers.Nodup → s.debouncer.calls = before ++ rest →
      s.takeAll (rest.map fun c => .deliver c.generation) =
        { s with
          debouncer := { s.debouncer with
            calls := before ++ (Debouncer.deliver { s.debouncer with calls := rest }).2.calls }
          history := ((Debouncer.deliver { s.debouncer with calls := rest }).1.map
            fun (g, answer) => (g, CallEvent.resolved answer)).reverse ++ s.history } := by
  -- Those in `before` were asked already and have no answer yet.
  induction rest with
  | nil =>
    intro s before hd hcalls
    rw [List.append_nil] at hcalls
    change s = { s with debouncer := { s.debouncer with calls := before ++ [] } }
    rw [List.append_nil, ← hcalls]
  | cons c rest ih =>
    intro s before hd hcalls
    have hcall := Debouncer.call?_of_calls_eq hd hcalls
    have hremove := Debouncer.remove_of_calls_eq hd hcalls
    change (s.take (.deliver c.generation)).takeAll _ = _
    by_cases hdone : ∃ answer, c.stage = .done answer
    case neg =>
      have hnot : ∀ c', s.debouncer.call? c.generation = some c' →
          ∀ answer, c'.stage ≠ .done answer :=
        fun c' hcall' answer hstage =>
          hdone ⟨answer, Option.some.inj (hcall'.symm.trans hcall) ▸ hstage⟩
      rw [take_deliver_of_not_done hnot, ih hd (by rw [hcalls, List.append_cons])]
      cases hstage : c.stage with
      | done answer => exact absurd ⟨answer, hstage⟩ hdone
      | _ => simp [Debouncer.deliver, hstage]
    obtain ⟨answer, hstage⟩ := hdone
    have hleft : (s.debouncer.remove c.generation).numbers.Nodup :=
      hd.sublist (List.filter_sublist.map _)
    by_cases hawaited : c.awaited = true
    · rw [take_deliver_of_awaited hcall hstage hawaited, ih hleft (by rw [hremove]), hremove]
      simp [Debouncer.deliver, hstage, hawaited]
    · rw [take_deliver_of_not_awaited hcall hstage hawaited, ih hleft (by rw [hremove]), hremove]
      simp [Debouncer.deliver, hstage, hawaited]

theorem Sound.takeAll_deliver (h : Sound s) :
    s.takeAll (s.debouncer.calls.map fun c => .deliver c.generation) =
      { s with
        debouncer := s.debouncer.deliver.2
        history := (s.debouncer.deliver.1.map
          fun (g, answer) => (g, CallEvent.resolved answer)).reverse ++ s.history } :=
  takeAll_deliver_of_calls_eq _ h.distinct (List.nil_append _).symm

end DebounceRun

namespace Debouncer

variable {β α : Type} {d : Debouncer β α}

/-- A debouncer that the steps of calls lead to. -/
def Reachable (d : Debouncer β α) : Prop :=
  ∃ steps, (DebounceRun.takeAll ({} : DebounceRun β α) steps).debouncer = d

theorem reachable_new : Reachable ({} : Debouncer β α) := ⟨[], rfl⟩

/-- What further steps lead to. -/
theorem Reachable.more (h : d.Reachable) {d' : Debouncer β α}
    (hmore : ∀ s : DebounceRun β α, s.Sound → s.debouncer = d →
      ∃ more, (s.takeAll more).debouncer = d') : d'.Reachable := by
  obtain ⟨steps, hsteps⟩ := h
  obtain ⟨more, hd'⟩ := hmore _ (DebounceRun.sound_new.takeAll steps) hsteps
  exact ⟨steps ++ more, (congrArg _ (DebounceRun.takeAll_append ..)).trans hd'⟩

theorem Reachable.schedule (h : d.Reachable) (key : String) (work : β) (due : Nat) :
    (d.schedule key work due).2.Reachable := by
  refine h.more fun s hsound hs => ?_
  subst hs
  refine ⟨[.number key work, .enter s.debouncer.next due], ?_⟩
  have hnew := s.debouncer.call?_number key work s.debouncer.next
  rw [(hsound.fresh _ (Nat.le_refl _)).1, if_pos rfl, Option.none_or] at hnew
  exact DebounceRun.debouncer_take_enter hnew rfl due

theorem Reachable.abandon (h : d.Reachable) (g : Nat) : (d.abandon g).Reachable := by
  refine h.more fun s hsound hs => ?_
  subst hs
  cases hcall : s.debouncer.call? g with
  | none => exact ⟨[], (abandon_of_none hcall).symm⟩
  | some c =>
    refine ⟨[.drop g], ?_⟩
    change (s.take (.drop g)).debouncer = _
    rw [DebounceRun.take, hcall]

/-- A timer that takes its call out of the table, with the work that then begins and ends. -/
theorem Reachable.work (h : d.Reachable) {g : Nat} {work : β} {d' : Debouncer β α}
    (hexpire : d.expire g = (some work, d')) (value : Option α) :
    (d'.finish g value).Reachable := by
  refine h.more fun s hsound hs => ?_
  subst hs
  obtain ⟨hnone, -⟩ | ⟨c, hcall, hlookup, hsome⟩ := s.debouncer.expire_cases g
  · cases hnone.symm.trans hexpire
  cases hsome.symm.trans hexpire
  -- Here a panic is not told from work that fails.
  let result : WorkEnd α := value.elim .failed .value
  have hvalue : result.answer = value := by cases value <;> rfl
  refine ⟨[.wake g, .check g] ++ [.finish g result], ?_⟩
  rw [DebounceRun.takeAll_append, hsound.takeAll_wake_check hcall hlookup]
  have hrunning := (s.debouncer.call?_stage g .running g).trans (if_pos rfl)
  rw [hcall] at hrunning
  refine (congrArg _ (DebounceRun.take_finish_of_running hrunning rfl result)).trans ?_
  rw [hvalue]

theorem Reachable.fireDue {σ : Type} (h : d.Reachable) (run : β → σ → Option α × σ) (now : Nat)
    (state : σ) : (d.fireDue run now state).1.Reachable := by
  refine List.foldlRecOn (motive := fun s : Debouncer β α × List Nat × σ => s.1.Reachable) _ _ h ?_
  rintro ⟨d', worked, state'⟩ hreach c -
  dsimp only
  split
  next hexpire => exact (eq_of_expire_none hexpire).symm ▸ hreach
  next work d'' hexpire => exact hreach.work hexpire _

theorem Reachable.deliver (h : d.Reachable) : d.deliver.2.Reachable := by
  refine h.more fun s hsound hs => ?_
  subst hs
  exact ⟨_, congrArg _ hsound.takeAll_deliver⟩

end Debouncer

namespace Server

variable {server : Server}

theorem requestAll_reachable (h : server.debouncer.Reachable) (uris : List Uri) :
    (server.requestAll uris).2.debouncer.Reachable := by
  induction uris generalizing server with
  | nil => exact h
  | cons uri uris ih =>
    refine ih ?_
    cases server.hintJob? uri with
    | none => exact h
    | some job => exact h.schedule ..

theorem elapse_reachable (h : server.debouncer.Reachable) (around : Surroundings) (ms : Nat) :
    (elapse around server ms).server.debouncer.Reachable := by
  refine Debouncer.Reachable.deliver ?_
  refine List.foldlRecOn (motive := fun s : Debouncer HintJob (List Hint) × Checker × _ =>
    s.1.Reachable) _ _ h fun s hs moment _ => ?_
  change (Debouncer.fireDue (workOff around) moment s.1 ⟨s.2.1, none, s.2.2⟩).1.Reachable
  exact hs.fireDue ..

/-- A server's debouncer is in no other states, so what is relied on there (`DebounceRun.Safe`) may
be relied on in a server. -/
theorem hintsTogether_reachable (h : server.debouncer.Reachable) (around : Surroundings)
    (uris : List Uri) : (server.hintsTogether around uris).server.debouncer.Reachable := by
  have hentered := requestAll_reachable h uris
  rw [hintsTogether]
  dsimp only
  split
  · exact hentered
  refine elapse_reachable ?_ around _
  split
  · exact List.foldlRecOn (motive := Debouncer.Reachable) _ _ hentered fun d hd g _ => hd.abandon g
  · exact hentered

end Server

end MemoHints
