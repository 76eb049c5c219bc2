import MemoHints.Proofs.Debounce.Steps

/-!
# The stories of debounced calls

What happens to one call follows one of a few stories (`CallLife`), which part where the call leaves
the table: either another call supersedes it, and then it is answered with nothing and its work
never begins, or its own timer takes it out, and then its work begins and nobody stops it.  The call
of a key that entered last leaves the table in the second way only.
-/

namespace MemoHints

/-! ## The stories of a call -/

/-- All that can happen to a call, the latest first, and the stage that it is at then. -/
inductive CallLife {α : Type} (dropped : Prop) :
    List (CallEvent α) → Option (CallStage α) → Prop where
  | unborn : CallLife dropped [] none
  | numbered : CallLife dropped [] (some .numbered)
  | waiting (key : String) : CallLife dropped [.entered key] (some .waiting)
  | superseded (key : String) : CallLife dropped [.superseded, .entered key] (some (.done none))
  | dismissed (key : String) : CallLife dropped [.resolved none, .superseded, .entered key] none
  | running (key : String) : CallLife dropped [.started, .entered key] (some .running)
  | finished (key : String) (result : WorkEnd α) :
    CallLife dropped [.returned result, .started, .entered key] (some (.done result.answer))
  | answered (key : String) (result : WorkEnd α) :
    CallLife dropped [.resolved result.answer, .returned result, .started, .entered key] none
  | leftSuperseded (key : String) (h : dropped) : CallLife dropped [.superseded, .entered key] none
  | leftFinished (key : String) (result : WorkEnd α) (h : dropped) :
    CallLife dropped [.returned result, .started, .entered key] none

namespace CallLife

variable {α : Type} {dropped : Prop} {story : List (CallEvent α)}

theorem enter (h : CallLife dropped story (some .numbered)) (key : String) :
    CallLife dropped (.entered key :: story) (some .waiting) := by
  cases h
  exact .waiting key

theorem supersede (h : CallLife dropped story (some .waiting)) :
    CallLife dropped (.superseded :: story) (some (.done none)) := by
  cases h
  exact .superseded _

theorem start (h : CallLife dropped story (some .waiting)) :
    CallLife dropped (.started :: story) (some .running) := by
  cases h
  exact .running _

theorem finish (h : CallLife dropped story (some .running)) (result : WorkEnd α) :
    CallLife dropped (.returned result :: story) (some (.done result.answer)) := by
  cases h
  exact .finished _ result

theorem resolve {answer : Option α} (h : CallLife dropped story (some (.done answer))) :
    CallLife dropped (.resolved answer :: story) none := by
  cases h with
  | superseded key => exact .dismissed key
  | finished key result => exact .answered key result

theorem leave {answer : Option α} (h : CallLife dropped story (some (.done answer)))
    (hdropped : dropped) : CallLife dropped story none := by
  cases h with
  | superseded key => exact .leftSuperseded key hdropped
  | finished key result => exact .leftFinished key result hdropped

theorem drop {stage? : Option (CallStage α)} (h : CallLife dropped story stage?)
    {dropped' : Prop} (himp : dropped → dropped') : CallLife dropped' story stage? := by
  cases h with
  | leftSuperseded key h => exact .leftSuperseded key (himp h)
  | leftFinished key result h => exact .leftFinished key result (himp h)
  | _ => constructor

variable {stage? : Option (CallStage α)}

theorem not_started_of_superseded (h : CallLife dropped story stage?)
    (hsuperseded : .superseded ∈ story) : .started ∉ story := by
  cases h <;> simp_all

/-- A superseded call has no other answer than nothing. -/
theorem eq_none_of_superseded (h : CallLife dropped story stage?)
    (hsuperseded : .superseded ∈ story) {answer : Option α} (hresolved : .resolved answer ∈ story) :
    answer = none := by
  cases h <;> simp_all

/-- A call is answered with a value only if its own work returned the value. -/
theorem returned_of_resolved (h : CallLife dropped story stage?) {v : α}
    (hresolved : .resolved (some v) ∈ story) : .returned (.value v) ∈ story := by
  cases h with
  | answered key result => cases result <;> simp_all [WorkEnd.answer]
  | _ => simp at hresolved

theorem countP_isStart (h : CallLife dropped story stage?) :
    story.countP CallEvent.isStart ≤ 1 := by
  cases h <;> simp [List.countP_cons, CallEvent.isStart]

theorem countP_isResolution (h : CallLife dropped story stage?) :
    story.countP CallEvent.isResolution ≤ 1 := by
  cases h <;> simp [List.countP_cons, CallEvent.isResolution]

/-- An answer that someone waits for is given, or it is there to be given. -/
theorem resolved_or_done (h : CallLife dropped story stage?) (hkept : ¬ dropped)
    {event : CallEvent α} (hmem : event ∈ story) {answer : Option α}
    (hanswer : event.answer? = some answer) :
    .resolved answer ∈ story ∨ stage? = some (.done answer) := by
  cases h <;> cases event <;> simp_all [CallEvent.answer?]

end CallLife

/-! ## The invariant -/

/-- What holds of one call: its story fits its stage, it is awaited unless its caller went away, and
the timer of a waiting call was not stopped. -/
structure CallSound {β α : Type} (dropped : Prop) (story : List (CallEvent α)) (timer : TimerStage)
    (call? : Option (DebouncedCall β α)) : Prop where
  life : CallLife dropped story (call?.map (·.stage))
  awaited : ∀ c, call? = some c → (c.awaited = true ↔ ¬ dropped)
  timer : ∀ c, call? = some c → c.stage = .waiting → timer = .asleep ∨ timer = .awake

namespace CallSound

variable {β α : Type} {dropped : Prop} {story : List (CallEvent α)} {timer : TimerStage}
  {c : DebouncedCall β α}

theorem life_of_stage (h : CallSound dropped story timer (some c)) {stage : CallStage α}
    (hstage : c.stage = stage) : CallLife dropped story (some stage) :=
  hstage ▸ h.life

/-- A call goes on to another stage. -/
theorem goOn (h : CallSound dropped story timer (some c)) {story' : List (CallEvent α)}
    {timer' : TimerStage} {c' : DebouncedCall β α} (hawaited : c'.awaited = c.awaited)
    (hlife : CallLife dropped story' (some c'.stage))
    (htimer : c'.stage = .waiting → timer' = .asleep ∨ timer' = .awake) :
    CallSound dropped story' timer' (some c') where
  life := hlife
  awaited := by
    rintro _ ⟨⟩
    rw [hawaited]
    exact h.awaited c rfl
  timer := by
    rintro _ ⟨⟩
    exact htimer

theorem enter (h : CallSound dropped story timer (some c)) (hstage : c.stage = .numbered)
    (key : String) (due : Nat) {timer' : TimerStage} (htimer : timer' = .asleep) :
    CallSound dropped (.entered key :: story) timer' (some { c with stage := .waiting, due }) :=
  h.goOn rfl ((h.life_of_stage hstage).enter key) fun _ => .inl htimer

theorem supersede (h : CallSound dropped story timer (some c)) (hstage : c.stage = .waiting)
    (timer' : TimerStage) :
    CallSound dropped (.superseded :: story) timer' (some { c with stage := .done none }) :=
  h.goOn rfl (h.life_of_stage hstage).supersede nofun

theorem start (h : CallSound dropped story timer (some c)) (hstage : c.stage = .waiting)
    (timer' : TimerStage) :
    CallSound dropped (.started :: story) timer' (some { c with stage := .running }) :=
  h.goOn rfl (h.life_of_stage hstage).start nofun

theorem finish (h : CallSound dropped story timer (some c)) (hstage : c.stage = .running)
    (result : WorkEnd α) :
    CallSound dropped (.returned result :: story) timer
      (some { c with stage := .done result.answer }) :=
  h.goOn rfl ((h.life_of_stage hstage).finish result) nofun

theorem resolve (h : CallSound dropped story timer (some c)) {answer : Option α}
    (hstage : c.stage = .done answer) :
    CallSound (β := β) dropped (.resolved answer :: story) timer none :=
  ⟨(h.life_of_stage hstage).resolve, nofun, nofun⟩

theorem leave (h : CallSound dropped story timer (some c)) {answer : Option α}
    (hstage : c.stage = .done answer) (hdropped : dropped) :
    CallSound (β := β) dropped story timer none :=
  ⟨(h.life_of_stage hstage).leave hdropped, nofun, nofun⟩

theorem drop (h : CallSound dropped story timer (some c)) {dropped' : Prop} (hdropped : dropped') :
    CallSound dropped' story timer (some { c with awaited := false }) where
  life := h.life.drop fun _ => hdropped
  awaited := by
    rintro _ ⟨⟩
    simp [hdropped]
  timer := by
    rintro _ ⟨⟩
    exact h.timer c rfl

end CallSound

namespace DebounceRun

variable {β α : Type} {s s' : DebounceRun β α}

/-- What holds of the call of a number. -/
def SoundAt (s : DebounceRun β α) (g : Nat) : Prop :=
  CallSound (g ∈ s.dropped) (s.story g) (s.timers g) (s.debouncer.call? g)

/-- The waiting calls are those in the table, and the call of a key that entered last is in the
table or has begun its work. -/
structure Sound (s : DebounceRun β α) : Prop where
  calls : ∀ g, s.SoundAt g
  fresh : ∀ g, s.debouncer.next ≤ g →
    s.debouncer.call? g = none ∧ s.story g = [] ∧ g ∉ s.dropped
  distinct : s.debouncer.numbers.Nodup
  pending : s.debouncer.PendingWaits
  latest : ∀ key g, latestOf key s.history = some g →
    s.debouncer.pending.lookup key = some g ∨ .started ∈ s.story g

theorem sound_new : Sound ({} : DebounceRun β α) where
  calls _ := ⟨.unborn, nofun, nofun⟩
  fresh _ _ := ⟨rfl, rfl, nofun⟩
  distinct := .nil
  pending _ _ := ⟨nofun, nofun⟩
  latest _ _ h := nomatch h

/-- A step leaves a call alone. -/
structure SameAt (s s' : DebounceRun β α) (g : Nat) : Prop where
  call : s'.debouncer.call? g = s.debouncer.call? g
  story : s'.story g = s.story g
  timer : s'.timers g = s.timers g
  dropped : g ∈ s'.dropped ↔ g ∈ s.dropped

theorem SameAt.soundAt {g : Nat} (hsame : SameAt s s' g) (h : s.SoundAt g) : s'.SoundAt g := by
  rw [SoundAt, hsame.call, hsame.story, hsame.timer, propext hsame.dropped]
  exact h

theorem SameAt.waitsUnder {g : Nat} (hsame : SameAt s s' g) :
    s'.debouncer.waitsUnder g = s.debouncer.waitsUnder g := by
  rw [Debouncer.waitsUnder, hsame.call, Debouncer.waitsUnder]

namespace Sound

theorem lt_next (h : Sound s) {g : Nat} {c : DebouncedCall β α}
    (hcall : s.debouncer.call? g = some c) : g < s.debouncer.next := by
  by_contra hge
  rw [(h.fresh g (by omega)).1] at hcall
  cases hcall

/-- A step leaves a call alone, or the call is sound after it. -/
theorem of_calls (h : Sound s)
    (hcalls : ∀ g, SameAt s s' g ∨ s'.SoundAt g ∧ g < s'.debouncer.next)
    (hnext : s.debouncer.next ≤ s'.debouncer.next) (hdistinct : s'.debouncer.numbers.Nodup)
    (hpending : s'.debouncer.PendingWaits)
    (hlatest : ∀ key g, latestOf key s'.history = some g →
      s'.debouncer.pending.lookup key = some g ∨ .started ∈ s'.story g) : Sound s' where
  calls g := by
    obtain hsame | ⟨hsound, -⟩ := hcalls g
    · exact hsame.soundAt (h.calls g)
    · exact hsound
  fresh g hge := by
    obtain hsame | ⟨-, hlt⟩ := hcalls g
    · rw [hsame.call, hsame.story, hsame.dropped]
      exact h.fresh g (Nat.le_trans hnext hge)
    · omega
  distinct := hdistinct
  pending := hpending
  latest := hlatest

/-- A step of one call that changes neither whether it waits nor the table. -/
theorem of_one (h : Sound s) {g : Nat} (hcall : s'.SoundAt g)
    (hothers : ∀ g', g' ≠ g → SameAt s s' g') (hnext : s.debouncer.next ≤ s'.debouncer.next)
    (hg : g < s'.debouncer.next) (hdistinct : s'.debouncer.numbers.Nodup)
    (hpending : s'.debouncer.pending = s.debouncer.pending)
    (hwaits : s'.debouncer.waitsUnder g = s.debouncer.waitsUnder g)
    (hlatest : ∀ key, latestOf key s'.history = latestOf key s.history)
    (hstarted : .started ∈ s.story g → .started ∈ s'.story g) : Sound s' := by
  refine h.of_calls (fun g' => ?_) hnext hdistinct (fun key g' => ?_) fun key g' hlast => ?_
  · by_cases heq : g' = g
    · exact .inr ⟨heq ▸ hcall, heq ▸ hg⟩
    · exact .inl (hothers g' heq)
  · rw [hpending, h.pending]
    by_cases heq : g' = g
    · rw [heq, hwaits]
    · rw [(hothers g' heq).waitsUnder]
  · rw [hpending]
    refine (h.latest key g' (hlatest key ▸ hlast)).imp_right fun hmem => ?_
    by_cases heq : g' = g
    · exact heq ▸ hstarted (heq ▸ hmem)
    · exact (hothers g' heq).story ▸ hmem

theorem number (h : Sound s) (key : String) (work : β) : Sound (s.take (.number key work)) := by
  obtain ⟨hnone, hstory, hdropped⟩ := h.fresh s.debouncer.next (Nat.le_refl _)
  have hcall := s.debouncer.call?_number key work
  have hdistinct : (s.debouncer.number key work).2.numbers.Nodup := by
    rw [Debouncer.number, Debouncer.numbers, List.map_append, List.map_singleton]
    refine List.nodup_append.mpr ⟨h.distinct, List.pairwise_singleton .., ?_⟩
    rintro g hg _ hsingle rfl
    cases List.mem_singleton.mp hsingle
    exact Debouncer.call?_eq_none_iff.mp hnone hg
  refine h.of_one (g := s.debouncer.next) ?_ (fun g' hne => ?_) (Nat.le_succ _)
    (Nat.lt_succ_self _) hdistinct rfl ?_ (fun _ => rfl) id
  · change CallSound (s.debouncer.next ∈ s.dropped) (s.story s.debouncer.next) _
      ((s.debouncer.number key work).2.call? s.debouncer.next)
    rw [hcall, hnone, if_pos rfl, hstory]
    exact ⟨.numbered, by rintro _ ⟨⟩; simp [hdropped], by rintro _ ⟨⟩ hwaiting; cases hwaiting⟩
  · refine ⟨?_, rfl, rfl, Iff.rfl⟩
    refine (hcall g').trans ?_
    rw [if_neg hne, Option.or_none]
  · refine (congrArg (·.bind (·.waitingKey)) (hcall s.debouncer.next)).trans ?_
    rw [Debouncer.waitsUnder, hnone, if_pos rfl]
    rfl

theorem soundAt_some (h : Sound s) {g : Nat} {c : DebouncedCall β α}
    (hcall : s.debouncer.call? g = some c) :
    CallSound (g ∈ s.dropped) (s.story g) (s.timers g) (some c) :=
  hcall ▸ h.calls g

/-- A change of a timer that does not stop a waiting call. -/
theorem setTimer (h : Sound s) (g : Nat) {timer : TimerStage}
    (htimer : ∀ c, s.debouncer.call? g = some c → c.stage = .waiting →
      timer = .asleep ∨ timer = .awake) :
    Sound { s with timers := Function.update s.timers g timer } where
  calls g' := by
    refine ⟨(h.calls g').life, (h.calls g').awaited, fun c hcall hwaiting => ?_⟩
    change Function.update s.timers g timer g' = _ ∨ Function.update s.timers g timer g' = _
    by_cases heq : g' = g
    · subst heq
      rw [Function.update_self]
      exact htimer c hcall hwaiting
    · rw [Function.update_of_ne heq]
      exact (h.calls g').timer c hcall hwaiting
  fresh := h.fresh
  distinct := h.distinct
  pending := h.pending
  latest := h.latest

theorem wake (h : Sound s) (g : Nat) : Sound (s.take (.wake g)) := by
  rw [take]
  split
  · exact h.setTimer g fun _ _ _ => .inr rfl
  · exact h

theorem finish (h : Sound s) (g : Nat) (result : WorkEnd α) :
    Sound (s.take (.finish g result)) := by
  rw [take]
  split
  case h_2 => exact h
  case h_1 generation key work due awaited hcall =>
    have hcall' := s.debouncer.call?_stage g (.done result.answer)
    have hdistinct := (s.debouncer.numbers_stage g (.done result.answer)).symm ▸ h.distinct
    refine h.of_one (g := g) ?_ (fun g' hne => ?_) (Nat.le_refl _) (h.lt_next hcall) hdistinct rfl
      ?_ (fun _ => rfl) ?_
    · change CallSound (g ∈ s.dropped) (storyIn ((g, .returned result) :: s.history) g) (s.timers g)
        (Debouncer.call? (s.debouncer.update g _) g)
      rw [hcall', if_pos rfl, hcall, storyIn_cons_self]
      exact (h.soundAt_some hcall).finish rfl result
    · refine ⟨?_, storyIn_cons_of_ne hne .., rfl, Iff.rfl⟩
      exact (hcall' g').trans (if_neg hne)
    · change (Debouncer.call? (s.debouncer.update g _) g).bind _ = (s.debouncer.call? g).bind _
      rw [hcall', if_pos rfl, hcall]
      rfl
    · intro hmem
      change _ ∈ storyIn ((g, .returned result) :: s.history) g
      rw [storyIn_cons_self]
      exact List.mem_cons_of_mem _ hmem

/-- A call that has its answer leaves. -/
theorem deliver (h : Sound s) (g : Nat) : Sound (s.take (.deliver g)) := by
  by_cases hdone : ∃ c answer, s.debouncer.call? g = some c ∧ c.stage = .done answer
  case neg =>
    rw [take_deliver_of_not_done fun c hcall answer hstage => hdone ⟨c, answer, hcall, hstage⟩]
    exact h
  obtain ⟨c, answer, hcall, hstage⟩ := hdone
  have hsound := h.soundAt_some hcall
  have hgone : (s.debouncer.remove g).call? g = none := by
    rw [Debouncer.call?_remove, if_pos rfl]
  have hothers : ∀ g', g' ≠ g → (s.debouncer.remove g).call? g' = s.debouncer.call? g' :=
    fun g' hne => by rw [Debouncer.call?_remove, if_neg hne]
  have hwaits : (s.debouncer.remove g).waitsUnder g = s.debouncer.waitsUnder g := by
    rw [Debouncer.waitsUnder, hgone, Debouncer.waitsUnder, hcall, Option.bind_some,
      DebouncedCall.waitingKey, hstage]
    rfl
  have hdistinct : (s.debouncer.remove g).numbers.Nodup :=
    h.distinct.sublist (List.filter_sublist.map _)
  by_cases hawaited : c.awaited = true
  · rw [take_deliver_of_awaited hcall hstage hawaited]
    refine h.of_one (g := g) ?_ (fun g' hne => ?_) (Nat.le_refl _) (h.lt_next hcall) hdistinct rfl
      hwaits (fun _ => rfl) fun hmem => ?_
    · rw [SoundAt, story, storyIn_cons_self, hgone]
      exact hsound.resolve hstage
    · exact ⟨hothers g' hne, storyIn_cons_of_ne hne .., rfl, Iff.rfl⟩
    · rw [story, storyIn_cons_self]
      exact List.mem_cons_of_mem _ hmem
  · rw [take_deliver_of_not_awaited hcall hstage hawaited]
    refine h.of_one (g := g) ?_ (fun g' hne => ⟨hothers g' hne, rfl, rfl, Iff.rfl⟩)
      (Nat.le_refl _) (h.lt_next hcall) hdistinct rfl hwaits (fun _ => rfl) id
    rw [SoundAt, hgone]
    exact hsound.leave hstage (not_not.mp fun hkept => hawaited ((hsound.awaited c rfl).mpr hkept))

theorem drop (h : Sound s) (g : Nat) : Sound (s.take (.drop g)) := by
  rw [take]
  split
  case h_2 => exact h
  case h_1 c hcall =>
    have hcall' := s.debouncer.call?_abandon g
    have hdistinct := (s.debouncer.numbers_abandon g).symm ▸ h.distinct
    refine h.of_one (g := g) ?_ (fun g' hne => ?_) (Nat.le_refl _) (h.lt_next hcall) hdistinct rfl
      ?_ (fun _ => rfl) id
    · change CallSound (g ∈ g :: s.dropped) (s.story g) (s.timers g)
        ((s.debouncer.abandon g).call? g)
      rw [hcall', if_pos rfl, hcall]
      exact (h.soundAt_some hcall).drop (List.mem_cons_self ..)
    · refine ⟨?_, rfl, rfl, List.mem_cons.trans (or_iff_right hne)⟩
      exact (hcall' g').trans (if_neg hne)
    · change ((s.debouncer.abandon g).call? g).bind _ = (s.debouncer.call? g).bind _
      rw [hcall', if_pos rfl, hcall]
      rfl

/-- A timer takes its own call out of the table, or finds that it is not there. -/
theorem check (h : Sound s) (g : Nat) : Sound (s.take (.check g)) := by
  obtain hcheck | ⟨hcheck, hnot⟩ | ⟨c, hcall, hpending, hcheck⟩ := s.take_check_cases g <;>
    rw [hcheck]
  · exact h
  · refine h.setTimer g fun c hcall hwaiting => absurd ((h.pending _ _).mpr ?_) (hnot c hcall)
    rw [Debouncer.waitsUnder, hcall]
    exact DebouncedCall.waitingKey_eq_some_iff.mpr ⟨hwaiting, rfl⟩
  have hcall' := s.debouncer.call?_stage g .running
  have hstage : c.stage = .waiting := by
    by_contra hstage
    exact h.pending.lookup_ne hcall hstage c.key hpending
  have hdistinct := (s.debouncer.numbers_stage g .running).symm ▸ h.distinct
  refine h.of_calls (fun g' => ?_) (Nat.le_refl _) hdistinct (h.pending.start hpending)
    fun key g' hlast => ?_
  · by_cases heq : g' = g
    · subst heq
      refine .inr ⟨?_, h.lt_next hcall⟩
      change CallSound _ (storyIn ((g', .started) :: s.history) g') _
        (Debouncer.call? (s.debouncer.update g' _) g')
      rw [storyIn_cons_self, hcall', if_pos rfl, hcall]
      exact (h.soundAt_some hcall).start hstage _
    · refine .inl ⟨(hcall' g').trans (if_neg heq), storyIn_cons_of_ne heq .., ?_, Iff.rfl⟩
      exact Function.update_of_ne heq ..
  · -- The call that leaves the table is one whose work begins.
    change _ ∨ _ ∈ storyIn ((g, .started) :: s.history) g'
    by_cases heq : g' = g
    · rw [heq, storyIn_cons_self]
      exact .inr (List.mem_cons_self ..)
    · rw [storyIn_cons_of_ne heq]
      refine (h.latest key g' hlast).imp_left fun hother => ?_
      refine (lookup_filter_of_ne _ ?_).trans hother
      rintro rfl
      exact heq (Option.some.inj (hother.symm.trans hpending))

/-- The call of a key that entered last is the one that has just entered, or the one it was. -/
theorem latest_insert (h : Sound s) {g : Nat} {c : DebouncedCall β α}
    (hcall : s.debouncer.call? g = some c) (due : Nat) {history : List (Nat × CallEvent α)}
    (hlatest : ∀ key, latestOf key history = latestOf key s.history)
    (hstarted : ∀ g', .started ∈ s.story g' → .started ∈ storyIn history g') (key : String)
    (g' : Nat) (hlast : latestOf key ((g, .entered c.key) :: history) = some g') :
    (s.debouncer.insert g due).pending.lookup key = some g' ∨
      .started ∈ storyIn ((g, .entered c.key) :: history) g' := by
  rw [latestOf, hlatest] at hlast
  rw [Debouncer.lookup_insert hcall]
  by_cases hkey : key = c.key
  · rw [if_pos hkey.symm] at hlast
    rw [if_pos hkey]
    exact .inl hlast
  · rw [if_neg (Ne.symm hkey)] at hlast
    rw [if_neg hkey]
    exact (h.latest key g' hlast).imp_right fun hmem => mem_storyIn_cons (hstarted g' hmem) _

theorem enter (h : Sound s) (g due : Nat) : Sound (s.take (.enter g due)) := by
  by_cases hnumbered : ∃ c, s.debouncer.call? g = some c ∧ c.stage = .numbered
  case neg =>
    rw [take_enter_of_not_numbered fun c hcall hstage => hnumbered ⟨c, hcall, hstage⟩]
    exact h
  obtain ⟨c, hcall, hstage⟩ := hnumbered
  have hstage' : c.stage ≠ .waiting := by rw [hstage]; nofun
  have hnew := h.pending.lookup_ne hcall hstage' c.key
  have hcall' := Debouncer.call?_insert hcall hnew due
  have hnext := Debouncer.next_insert hcall due
  have hdistinct := (Debouncer.numbers_insert hcall due).symm ▸ h.distinct
  have hpending := h.pending.insert hcall hstage' due
  have hsound := h.soundAt_some hcall
  cases holder : s.debouncer.pending.lookup c.key with
  | none =>
    rw [take_enter_of_none hcall hstage holder]
    refine h.of_calls (fun g' => ?_) (Nat.le_of_eq hnext.symm) hdistinct hpending
      (h.latest_insert hcall due (fun _ => rfl) fun _ hmem => hmem)
    by_cases heq : g' = g
    · subst heq
      refine .inr ⟨?_, hnext.symm ▸ h.lt_next hcall⟩
      rw [SoundAt, story, storyIn_cons_self, hcall', if_pos rfl]
      exact hsound.enter hstage c.key due (Function.update_self ..)
    · refine .inl ⟨?_, storyIn_cons_of_ne heq .., Function.update_of_ne heq .., Iff.rfl⟩
      rw [hcall', if_neg heq, if_neg (by simp [holder])]
  | some older =>
    -- The call that enters has only its number, so the waiting one is another.
    have hne : g ≠ older := fun heq => hnew (heq ▸ holder)
    obtain ⟨c', hcallOlder, hwaiting, -⟩ := h.pending.exists_of_lookup holder
    rw [take_enter_of_some hcall hstage holder]
    refine h.of_calls (fun g' => ?_) (Nat.le_of_eq hnext.symm) hdistinct hpending
      (h.latest_insert hcall due (fun _ => rfl) fun _ hmem => mem_storyIn_cons hmem _)
    by_cases heq : g' = g
    · subst heq
      refine .inr ⟨?_, hnext.symm ▸ h.lt_next hcall⟩
      rw [SoundAt, story, storyIn_cons_self, storyIn_cons_of_ne hne, hcall', if_pos rfl]
      exact hsound.enter hstage c.key due (Function.update_self ..)
    by_cases hold : g' = older
    · subst hold
      refine .inr ⟨?_, hnext.symm ▸ h.lt_next hcallOlder⟩
      rw [SoundAt, story, storyIn_cons_of_ne heq, storyIn_cons_self, hcall', if_neg heq,
        if_pos holder, hcallOlder]
      exact (h.soundAt_some hcallOlder).supersede hwaiting _
    · refine .inl ⟨?_, ?_, ?_, Iff.rfl⟩
      · have hother : s.debouncer.pending.lookup c.key ≠ some g' := fun hlookup =>
          hold (Option.some.inj (hlookup.symm.trans holder))
        rw [hcall', if_neg heq, if_neg hother]
      · rw [story, storyIn_cons_of_ne heq, storyIn_cons_of_ne hold, story]
      · exact (Function.update_of_ne heq ..).trans (Function.update_of_ne hold ..)

end Sound

theorem Sound.take (h : Sound s) (step : DebounceStep β α) : Sound (s.take step) := by
  cases step with
  | number key work => exact h.number key work
  | enter g due => exact h.enter g due
  | wake g => exact h.wake g
  | check g => exact h.check g
  | finish g result => exact h.finish g result
  | deliver g => exact h.deliver g
  | drop g => exact h.drop g

theorem Sound.takeAll (h : Sound s) (steps : List (DebounceStep β α)) :
    Sound (s.takeAll steps) := by
  induction steps generalizing s with
  | nil => exact h
  | cons step steps ih => exact ih (h.take step)

end DebounceRun

end MemoHints
