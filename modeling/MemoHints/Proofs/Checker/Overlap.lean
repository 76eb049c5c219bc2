import MemoHints.Proofs.Checker.Transparency

/-!
# Checks that overlap

A checker is shared by checks that go on at the same time.  A check finds its plugin, looks into the
cache, asks the compiler and keeps the result; each of these happens at once, but other calls may
come between them.  Here those calls take turns in any order.

Two things are written down besides the checker, and nothing reads them: the runs of the compiler,
and for each entry of the cache where it comes from (`Keeping`).

## What goes wrong

A check that was overtaken by a call which moved the plugin keeps a result of the old plugin in a
cache that was already cleared for the new one; `not_recallsOwn` is the shortest such run.  The
cache itself is never at fault: as long as an entry is there, the plugin has not moved since it was
kept.  So what a check finds was made with its own plugin exactly when neither the check nor the one
that kept the result was overtaken (`recall_own_iff`).
-/

namespace MemoHints

/-- How far a check that has found its plugin has come. -/
inductive CheckStage where
  | found
  /-- Nothing was kept for it. -/
  | missed
  /-- The compiler has made its result, which is not kept yet. -/
  | made (result : CompileResult)
  /-- Its answer comes from the cache. -/
  | recalled (result : CompileResult)
  /-- Its answer comes from the compiler. -/
  | answered (answer : Guarded CompileResult)

/-- A check that has found its plugin. -/
structure OngoingCheck where
  text : String
  filename : String
  root : Option FilePath
  plugin : FilePath
  stage : CheckStage

/-- What the compiler is asked for a check. -/
def OngoingCheck.request (c : OngoingCheck) : CompileRequest :=
  Checker.checkRequest c.text c.filename c.plugin c.root

/-- The run of the compiler behind an entry of the cache, and the plugin that was the last one when
the result was kept. -/
structure Keeping where
  request : CompileRequest
  result : CompileResult
  last : Option FilePath

/-- A checker with the checks that go on, the runs of the compiler with a result, and where the
entries of each key came from, the latest first. -/
structure SharedChecker where
  checker : Checker
  checks : List OngoingCheck := []
  runs : List (CompileRequest × CompileResult) := []
  kept : List (String × Keeping) := []

/-- What happens at once.  The compiler of a run may be any, so that runs of one request may differ,
and so may the files that a plugin is looked for in. -/
inductive SharedStep where
  | enter (tree : FileTree) (text filename : String) (location : PluginLocation)
  | look (i : Nat)
  | compile (i : Nat) (compiler : Compiler)
  | keep (i : Nat)
  | resolve (tree : FileTree) (location : PluginLocation)
  | clearCache

namespace SharedChecker

/-- A check that is told to do what it is not up to does nothing. -/
def take (s : SharedChecker) : SharedStep → SharedChecker
  | .enter tree text filename location =>
    match s.checker.resolve tree location with
    | (.error _, checker) => { s with checker }
    | (.ok plugin, checker) =>
      { s with checker, checks := s.checks ++ [⟨text, filename, location.root, plugin, .found⟩] }
  | .look i =>
    match s.checks[i]? with
    | some ⟨text, filename, root, plugin, .found⟩ =>
      let looked := s.checker.lookup text filename
      let stage := looked.1.elim .missed .recalled
      { s with checker := looked.2, checks := s.checks.set i ⟨text, filename, root, plugin, stage⟩ }
    | _ => s
  | .compile i compiler =>
    match s.checks[i]? with
    | some ⟨text, filename, root, plugin, .missed⟩ =>
      match compiler.diagnose text filename plugin root with
      | .ok (.ok result) =>
        { s with
          checks := s.checks.set i ⟨text, filename, root, plugin, .made result⟩
          runs := (Checker.checkRequest text filename plugin root, result) :: s.runs }
      | made =>
        { s with
          checks := s.checks.set i
            ⟨text, filename, root, plugin, .answered (Checker.shown made)⟩ }
    | _ => s
  | .keep i =>
    match s.checks[i]? with
    | some ⟨text, filename, root, plugin, .made result⟩ =>
      { s with
        checker := s.checker.keep text filename result
        checks := s.checks.set i ⟨text, filename, root, plugin, .answered (.ok result)⟩
        kept := (ResultCache.key text filename,
          ⟨Checker.checkRequest text filename plugin root, result, s.checker.lastResolved⟩) ::
            s.kept }
    | _ => s
  | .resolve tree location => { s with checker := (s.checker.resolve tree location).2 }
  | .clearCache => { s with checker := s.checker.clearCache }

/-- Steps one after the other. -/
def takeAll (s : SharedChecker) (steps : List SharedStep) : SharedChecker := steps.foldl take s

end SharedChecker

/-- A result was kept in time if the plugin it was made with was still the last one. -/
def Keeping.InTime (k : Keeping) : Prop :=
  ∃ last, k.last = some last ∧ last.same k.request.plugin = true

/-- The plugin of a check is still the last one. -/
def OngoingCheck.IsCurrent (c : OngoingCheck) (checker : Checker) : Prop :=
  ∃ last, checker.lastResolved = some last ∧ last.same c.plugin = true

/-! ## The invariant -/

/-- An entry is what was kept last under its key, and the plugin has not moved since. -/
structure Keeping.Explains (k : Keeping) (s : SharedChecker) (e : String × CompileResult) :
    Prop where
  kept : s.kept.lookup e.1 = some k
  key : ResultCache.key k.request.source k.request.filename = e.1
  result : k.result = e.2
  ran : (k.request, k.result) ∈ s.runs
  last : ∃ last now, k.last = some last ∧ s.checker.lastResolved = some now ∧ last.same now = true

namespace SharedChecker

/-- Every entry is explained, and every result that is still to be kept was made by the compiler. -/
structure Sound (s : SharedChecker) : Prop where
  explained : ∀ e ∈ s.checker.cache.entries, ∃ k : Keeping, k.Explains s e
  remembered : ∀ c ∈ s.checks, ∃ last, s.checker.lastResolved = some last
  ran : ∀ c ∈ s.checks, ∀ result, c.stage = .made result → (c.request, result) ∈ s.runs

variable {s : SharedChecker}

theorem sound_of_new (bundled : Option FilePath) : Sound { checker := { bundled } } where
  explained := fun _ he => nomatch he
  remembered := fun _ hc => nomatch hc
  ran := fun _ hc => nomatch hc

namespace Sound

/-- What was explained stays so while the plugin does not move and nothing is kept. -/
theorem explained_of_subset (h : s.Sound) {s' : SharedChecker}
    (hentries : s'.checker.cache.entries ⊆ s.checker.cache.entries) (hkept : s'.kept = s.kept)
    (hruns : s.runs ⊆ s'.runs) (hlast : s'.checker.lastResolved = s.checker.lastResolved) :
    ∀ e ∈ s'.checker.cache.entries, ∃ k : Keeping, k.Explains s' e := by
  intro e he
  obtain ⟨k, hk⟩ := h.explained e (hentries he)
  exact ⟨k, hkept ▸ hk.kept, hk.key, hk.result, hruns hk.ran, hlast ▸ hk.last⟩

/-- Finding a plugin.  When it has moved there is nothing left to explain. -/
theorem noteResolved (h : s.Sound) (path : FilePath) :
    Sound { s with checker := s.checker.noteResolved path } where
  explained := by
    rcases s.checker.noteResolved_cases path with
      ⟨hnone, hnoted⟩ | ⟨_, -, -, hnoted⟩ | ⟨_, -, -, hnoted⟩
    · -- nothing was found before, so nothing was kept
      intro e he
      rw [hnoted] at he
      obtain ⟨_, hexplains⟩ := h.explained e he
      obtain ⟨_, _, -, hnow, -⟩ := hexplains.last
      rw [hnone] at hnow
      cases hnow
    · simp only [hnoted]
      exact h.explained
    · simp only [hnoted]
      exact fun _ he => nomatch he
  remembered := by
    intro c hc
    obtain ⟨last, hlast, -⟩ := Checker.exists_lastResolved_noteResolved s.checker path
    exact ⟨last, hlast⟩
  ran := h.ran

theorem resolve (h : s.Sound) (tree : FileTree) (location : PluginLocation) :
    Sound { s with checker := (s.checker.resolve tree location).2 } := by
  cases hfound : resolvePlugin tree location s.checker.bundled with
  | error attempts => rwa [Checker.resolve_of_error hfound]
  | ok found =>
    rw [Checker.resolve_of_ok hfound]
    exact h.noteResolved found.path

theorem clearCache (h : s.Sound) : Sound { s with checker := s.checker.clearCache } where
  explained := fun _ he => nomatch he
  remembered := h.remembered
  ran := h.ran

/-- A check that has found its plugin comes to the others. -/
theorem join (h : s.Sound) {c : OngoingCheck} (hstage : c.stage = .found)
    (hlast : ∃ last, s.checker.lastResolved = some last) :
    Sound { s with checks := s.checks ++ [c] } where
  explained := h.explained_of_subset (List.Subset.refl _) rfl (List.Subset.refl _) rfl
  remembered := fun _ _ => hlast
  ran := by
    intro d hd result hmade
    rcases List.mem_append.mp hd with hd | hd
    · exact h.ran d hd result hmade
    · obtain rfl := List.mem_singleton.mp hd
      rw [hstage] at hmade
      cases hmade

/-- A check goes on to a stage at which nothing is to be kept. -/
theorem goOn (h : s.Sound) {i : Nat} {c c' : OngoingCheck} (hi : s.checks[i]? = some c)
    (hstage : ∀ result, c'.stage ≠ .made result) :
    Sound { s with checks := s.checks.set i c' } where
  explained := h.explained_of_subset (List.Subset.refl _) rfl (List.Subset.refl _) rfl
  remembered := fun _ _ => h.remembered c (List.mem_of_getElem? hi)
  ran := by
    intro d hd result hmade
    rcases List.mem_or_eq_of_mem_set hd with hd | rfl
    · exact h.ran d hd result hmade
    · exact absurd hmade (hstage result)

/-- Looking takes nothing into the cache. -/
theorem lookup (h : s.Sound) (text filename : String) :
    Sound { s with checker := (s.checker.lookup text filename).2 } where
  explained := h.explained_of_subset (fun _ => Checker.mem_of_mem_lookup) rfl
    (List.Subset.refl _) rfl
  remembered := h.remembered
  ran := h.ran

/-- The compiler makes a result. -/
theorem compile (h : s.Sound) {i : Nat} {c c' : OngoingCheck} (hi : s.checks[i]? = some c)
    {result : CompileResult} (hstage : c'.stage = .made result) :
    Sound { s with checks := s.checks.set i c', runs := (c'.request, result) :: s.runs } where
  explained := h.explained_of_subset (List.Subset.refl _) rfl (List.subset_cons_self _ _) rfl
  remembered := fun _ _ => h.remembered c (List.mem_of_getElem? hi)
  ran := by
    intro d hd result' hmade
    rcases List.mem_or_eq_of_mem_set hd with hd | rfl
    · exact List.mem_cons_of_mem _ (h.ran d hd result' hmade)
    · obtain rfl : result = result' := CheckStage.made.inj (hstage.symm.trans hmade)
      exact List.mem_cons_self

/-- A result is kept, together with the plugin that is the last one now. -/
theorem keep (h : s.Sound) {request : CompileRequest} {result : CompileResult}
    (hran : (request, result) ∈ s.runs) (hlast : ∃ last, s.checker.lastResolved = some last) :
    Sound { s with
      checker := s.checker.keep request.source request.filename result
      kept := (ResultCache.key request.source request.filename,
        ⟨request, result, s.checker.lastResolved⟩) :: s.kept } where
  explained := by
    intro e he
    rcases Checker.mem_of_mem_keep he with rfl | ⟨he, hkey⟩
    · obtain ⟨last, hlast⟩ := hlast
      exact ⟨_, List.lookup_cons_self, rfl, rfl, hran, last, last, hlast, hlast, last.same_refl⟩
    · obtain ⟨k, hk⟩ := h.explained e he
      refine ⟨k, ?_, hk.key, hk.result, hk.ran, hk.last⟩
      exact (lookup_cons_of_ne _ hkey).trans hk.kept
  remembered := h.remembered
  ran := h.ran

/-- Every step keeps the invariant. -/
theorem take (h : s.Sound) (step : SharedStep) : (s.take step).Sound := by
  cases step with
  | enter tree text filename location =>
    cases hfound : resolvePlugin tree location s.checker.bundled with
    | error attempts =>
      simp only [SharedChecker.take, Checker.resolve_of_error hfound]
      exact h
    | ok found =>
      simp only [SharedChecker.take, Checker.resolve_of_ok hfound]
      obtain ⟨last, hlast, -⟩ := Checker.exists_lastResolved_noteResolved s.checker found.path
      exact (h.noteResolved found.path).join rfl ⟨last, hlast⟩
  | look i =>
    simp only [SharedChecker.take]
    split
    · next text filename root plugin hi =>
      refine (h.lookup text filename).goOn hi ?_
      intro result
      cases (s.checker.lookup text filename).1 <;> nofun
    · exact h
  | compile i compiler =>
    simp only [SharedChecker.take]
    split
    · next text filename root plugin hi =>
      split
      · exact h.compile hi rfl
      · exact h.goOn hi (fun _ => nofun)
    · exact h
  | keep i =>
    simp only [SharedChecker.take]
    split
    · next text filename root plugin result hi =>
      have hmem := List.mem_of_getElem? hi
      exact (h.keep (h.ran _ hmem result rfl) (h.remembered _ hmem)).goOn hi (fun _ => nofun)
    · exact h
  | resolve tree location => exact h.resolve tree location
  | clearCache => exact h.clearCache

theorem takeAll (h : s.Sound) (steps : List SharedStep) : (s.takeAll steps).Sound := by
  induction steps generalizing s with
  | nil => exact h
  | cons step steps ih => exact ih (h.take step)

end Sound

/-! ## What a check finds -/

/-- Looking with something kept: the check answers with it. -/
theorem take_look_of_hit {i : Nat} {c : OngoingCheck} (hi : s.checks[i]? = some c)
    (hfound : c.stage = .found) {result : CompileResult}
    (hit : (s.checker.lookup c.text c.filename).1 = some result) :
    (s.take (.look i)).checks[i]? = some { c with stage := .recalled result } := by
  obtain ⟨text, filename, root, plugin, stage⟩ := c
  cases hfound
  have hlt := (List.getElem?_eq_some_iff.mp hi).1
  simp only [take, hi, hit, Option.elim_some, List.getElem?_set_self hlt]

/-- A check whose steps nothing comes between does what `Checker.check` does. -/
theorem takeAll_alone (s : SharedChecker) (tree : FileTree) (compiler : Compiler)
    (text filename : String) (location : PluginLocation) :
    (s.takeAll [.enter tree text filename location, .look s.checks.length,
        .compile s.checks.length compiler, .keep s.checks.length]).checker =
      (s.checker.check tree compiler text filename location).checker := by
  cases hfound : resolvePlugin tree location s.checker.bundled with
  | error attempts =>
    rw [Checker.check_of_error hfound]
    simp [takeAll, take, Checker.resolve_of_error hfound]
  | ok found =>
    cases hit : ((s.checker.noteResolved found.path).lookup text filename).1 with
    | some result =>
      rw [Checker.check_of_hit hfound hit]
      simp [takeAll, take, Checker.resolve_of_ok hfound, hit]
    | none =>
      rw [Checker.check_of_miss hfound hit]
      rcases hmade : compiler.diagnose text filename found.path location.root with
        breakdown | failure | result
      all_goals
        simp [takeAll, take, Checker.resolve_of_ok hfound, hit, hmade, Checker.draftOf,
          Checker.keepDraft]

/-- Requests of one moment are worked on side by side: a check keeps its draft after the next one
has found its plugin, and before that one looks. -/
theorem takeAll_side_by_side {j : Nat} {draft : Draft} {root : Option FilePath} {plugin : FilePath}
    (hj : s.checks[j]? = some ⟨draft.text, draft.filename, root, plugin, .made draft.result⟩)
    (tree : FileTree) (compiler : Compiler) (text filename : String) (location : PluginLocation) :
    (s.takeAll [.enter tree text filename location, .keep j, .look s.checks.length,
        .compile s.checks.length compiler]).checker =
      (s.checker.examine tree compiler (some draft) text filename location).checker := by
  have hlt := (List.getElem?_eq_some_iff.mp hj).1
  cases hfound : resolvePlugin tree location s.checker.bundled with
  | error attempts =>
    rw [Checker.examine_of_error hfound]
    simp [takeAll, take, Checker.resolve_of_error hfound, hj, Checker.keepDraft]
  | ok found =>
    -- keeping changes the check before, and leaves the new one in its place
    have hj' : ∀ c : OngoingCheck, (s.checks ++ [c])[j]? = s.checks[j]? :=
      fun c => List.getElem?_append_left hlt
    have hset : ∀ c c' : OngoingCheck, (s.checks ++ [c]).set j c' = s.checks.set j c' ++ [c] :=
      fun c c' => List.set_append_left _ _ hlt
    have hlast : ∀ c c' : OngoingCheck, (s.checks.set j c' ++ [c])[s.checks.length]? = some c := by
      intro c c'
      rw [List.getElem?_append_right (by simp)]
      simp
    have hset' : ∀ c c' c'' : OngoingCheck,
        (s.checks.set j c' ++ [c]).set s.checks.length c'' = s.checks.set j c' ++ [c''] := by
      intro c c' c''
      rw [List.set_append_right _ _ (by simp)]
      simp
    cases hit : (((s.checker.noteResolved found.path).keepDraft draft).lookup text filename).1 with
    | some result =>
      rw [Checker.examine_of_hit hfound hit]
      rw [Checker.keepDraft] at hit
      simp only [takeAll, List.foldl, take, Checker.resolve_of_ok hfound, hj', hj, hset, hlast,
        hset', hit, Option.elim_some, Checker.keepDraft]
    | none =>
      rw [Checker.examine_of_miss hfound hit]
      rw [Checker.keepDraft] at hit
      rcases hmade : compiler.diagnose text filename found.path location.root with
        breakdown | failure | result
      all_goals
        simp only [takeAll, List.foldl, take, Checker.resolve_of_ok hfound, hj', hj, hset, hlast,
          hset', hit, Option.elim_none, hmade, Checker.keepDraft]

/-- Whatever a check would find now was made by a run with the plugin of that check. -/
def RecallsOwn (s : SharedChecker) : Prop :=
  ∀ c ∈ s.checks, c.stage = .found → ∀ result,
    (s.checker.lookup c.text c.filename).1 = some result →
      ∃ request, (request, result) ∈ s.runs ∧ request.plugin.same c.plugin = true

end SharedChecker

section Recall

variable {s : SharedChecker} {k : Keeping} {e : String × CompileResult} {c : OngoingCheck}

/-- The plugin that was the last one when an entry was kept is the last one still. -/
theorem Keeping.Explains.inTime_iff_of_isCurrent (h : k.Explains s e)
    (hc : c.IsCurrent s.checker) : k.InTime ↔ k.request.plugin.same c.plugin = true := by
  obtain ⟨last, now, hlast, hnow, hstays⟩ := h.last
  obtain ⟨_, hnow', hsame⟩ := hc
  obtain rfl := Option.some.inj (hnow.symm.trans hnow')
  constructor
  · rintro ⟨_, hlast', hk⟩
    obtain rfl := Option.some.inj (hlast.symm.trans hlast')
    exact FilePath.same_trans (FilePath.same_symm hk) (FilePath.same_trans hstays hsame)
  · intro hk
    refine ⟨last, hlast, ?_⟩
    exact FilePath.same_trans (FilePath.same_trans hstays hsame) (FilePath.same_symm hk)

theorem Keeping.Explains.isCurrent_iff_of_inTime (h : k.Explains s e) (hk : k.InTime) :
    c.IsCurrent s.checker ↔ k.request.plugin.same c.plugin = true := by
  constructor
  · intro hc
    exact (h.inTime_iff_of_isCurrent hc).mp hk
  · intro hsame
    obtain ⟨last, now, hlast, hnow, hstays⟩ := h.last
    obtain ⟨_, hlast', hk⟩ := hk
    obtain rfl := Option.some.inj (hlast.symm.trans hlast')
    refine ⟨now, hnow, ?_⟩
    exact FilePath.same_trans (FilePath.same_symm hstays) (FilePath.same_trans hk hsame)

end Recall

/-- **What a check finds is its own, unless somebody was overtaken.**  In every state that calls can
reach together, what a check finds comes from the run that was kept last under its key.  That run
had the check's own plugin exactly when the result was kept in time and the check's plugin is still
the last one; or when neither is so, and the plugin went away from the one of the run, and back to
it for the check. -/
theorem recall_own_iff (bundled : Option FilePath) (steps : List SharedStep) {i : Nat}
    {c : OngoingCheck} {result : CompileResult}
    (hi : (SharedChecker.takeAll { checker := { bundled } } steps).checks[i]? = some c)
    (hfound : c.stage = .found)
    (hit : ((SharedChecker.takeAll { checker := { bundled } } steps).checker.lookup
      c.text c.filename).1 = some result) :
    let s := SharedChecker.takeAll { checker := { bundled } } steps
    (s.take (.look i)).checks[i]? = some { c with stage := .recalled result } ∧
    ∃ k : Keeping, s.kept.lookup (ResultCache.key c.text c.filename) = some k ∧
      k.result = result ∧ (k.request, result) ∈ s.runs ∧
      k.request.filename = c.filename ∧ digestOf k.request.source = digestOf c.text ∧
      (k.request.plugin.same c.plugin = true ↔
        (k.InTime ∧ c.IsCurrent s.checker) ∨
        (¬ k.InTime ∧ ¬ c.IsCurrent s.checker ∧ k.request.plugin.same c.plugin = true)) := by
  intro s
  refine ⟨SharedChecker.take_look_of_hit hi hfound hit, ?_⟩
  have hsound : s.Sound := (SharedChecker.sound_of_new bundled).takeAll steps
  obtain ⟨k, hk⟩ := hsound.explained _ (Checker.mem_of_lookup hit)
  obtain ⟨hname, hdigest⟩ := ResultCache.key_inj.mp hk.key
  have hran := hk.ran
  rw [hk.result] at hran
  refine ⟨k, hk.kept, hk.result, hran, hname, hdigest, ?_⟩
  constructor
  · intro hsame
    by_cases hc : c.IsCurrent s.checker
    · exact .inl ⟨(hk.inTime_iff_of_isCurrent hc).mpr hsame, hc⟩
    · refine .inr ⟨fun htime => ?_, hc, hsame⟩
      exact hc ((hk.isCurrent_iff_of_inTime htime).mpr hsame)
  · rintro (⟨htime, hc⟩ | ⟨-, -, hsame⟩)
    · exact (hk.inTime_iff_of_isCurrent hc).mp htime
    · exact hsame

/-! The shortest run that goes wrong: while the compiler works with the first plugin, another check
finds the second one.  The cache is cleared, then the result of the first is kept, and then the
other check looks. -/

def overtaking : List SharedStep :=
  [.enter twoPlugins "a" "a.ts" (pluginNamed 0x70), .look 0,
    .compile 0 (choosyCompiler ⟨[FilePath.slash, 0x70]⟩),
    .enter twoPlugins "a" "a.ts" (pluginNamed 0x71), .keep 0]

theorem overtaking_run :
    let s := SharedChecker.takeAll { checker := {} } overtaking
    s.checks[1]? =
      some ⟨"a", "a.ts", some ⟨[FilePath.slash]⟩, ⟨[FilePath.slash, 0x71]⟩, .found⟩ ∧
    s.runs = [(Checker.checkRequest "a" "a.ts" ⟨[FilePath.slash, 0x70]⟩
      (some ⟨[FilePath.slash]⟩), {})] ∧
    s.checker.lastResolved = some ⟨[FilePath.slash, 0x71]⟩ ∧
    (s.checker.lookup "a" "a.ts").1 = some {} := by
  have hp : Checker.resolve twoPlugins {} (pluginNamed 0x70) =
      (.ok ⟨[FilePath.slash, 0x70]⟩, { lastResolved := some ⟨[FilePath.slash, 0x70]⟩ }) := by
    rw [Checker.resolve_of_ok (resolvePlugin_pluginNamed (.inl rfl) none)]
    rfl
  have hq : Checker.resolve twoPlugins { lastResolved := some ⟨[FilePath.slash, 0x70]⟩ }
      (pluginNamed 0x71) =
      (.ok ⟨[FilePath.slash, 0x71]⟩, { lastResolved := some ⟨[FilePath.slash, 0x71]⟩ }) := by
    rw [Checker.resolve_of_ok (resolvePlugin_pluginNamed (.inr rfl) none)]
    rfl
  have hfirst : SharedChecker.takeAll { checker := {} } (overtaking.take 3) =
      { checker := { lastResolved := some ⟨[FilePath.slash, 0x70]⟩ }
        checks := [⟨"a", "a.ts", some ⟨[FilePath.slash]⟩, ⟨[FilePath.slash, 0x70]⟩, .made {}⟩]
        runs := [(Checker.checkRequest "a" "a.ts" ⟨[FilePath.slash, 0x70]⟩
          (some ⟨[FilePath.slash]⟩), {})] } := by
    simp only [overtaking, List.take, SharedChecker.takeAll, List.foldl]
    rw [SharedChecker.take, hp]
    rfl
  have hsecond : SharedChecker.takeAll { checker := {} } overtaking =
      { checker := Checker.keep { lastResolved := some ⟨[FilePath.slash, 0x71]⟩ } "a" "a.ts" {}
        checks := [⟨"a", "a.ts", some ⟨[FilePath.slash]⟩, ⟨[FilePath.slash, 0x70]⟩,
            .answered (.ok {})⟩,
          ⟨"a", "a.ts", some ⟨[FilePath.slash]⟩, ⟨[FilePath.slash, 0x71]⟩, .found⟩]
        runs := [(Checker.checkRequest "a" "a.ts" ⟨[FilePath.slash, 0x70]⟩
          (some ⟨[FilePath.slash]⟩), {})]
        kept := [(ResultCache.key "a" "a.ts",
          ⟨Checker.checkRequest "a" "a.ts" ⟨[FilePath.slash, 0x70]⟩ (some ⟨[FilePath.slash]⟩), {},
            some ⟨[FilePath.slash, 0x71]⟩⟩)] } := by
    have hsplit : SharedChecker.takeAll { checker := {} } overtaking =
        (SharedChecker.takeAll { checker := {} } (overtaking.take 3)).takeAll
          (overtaking.drop 3) := rfl
    rw [hsplit, hfirst]
    simp only [overtaking, List.drop, SharedChecker.takeAll, List.foldl]
    rw [SharedChecker.take, hq]
    rfl
  rw [hsecond]
  refine ⟨rfl, rfl, rfl, ?_⟩
  simp [Checker.lookup, Checker.keep, ResultCache.find, ResultCache.store, Lru.get, Lru.put,
    Lru.empty, ResultCache.defaultCapacity, Lru.without]

/-- The result was kept too late, although the check that finds it is up to date. -/
theorem overtaking_keeps_late :
    let s := SharedChecker.takeAll { checker := {} } overtaking
    ∃ k : Keeping, s.kept.lookup (ResultCache.key "a" "a.ts") = some k ∧
      (k.request, {}) ∈ s.runs ∧ ¬ k.InTime := by
  intro s
  obtain ⟨hi, hruns, hlast, hit⟩ := overtaking_run
  obtain ⟨-, k, hkept, -, hran, -, -, hiff⟩ := recall_own_iff none overtaking hi rfl hit
  refine ⟨k, hkept, hran, fun htime => ?_⟩
  have hsame := hiff.mpr (.inl ⟨htime, _, hlast, FilePath.same_refl _⟩)
  have hran : (k.request, ({} : CompileResult)) ∈ s.runs := hran
  rw [hruns, List.mem_singleton] at hran
  rw [(Prod.mk.inj hran).1] at hsame
  exact absurd hsame (by decide)

/-- **A result of another plugin may be found.**  Not every run of calls recalls only what its
checks' own plugins made. -/
theorem not_recallsOwn :
    ¬ ∀ (bundled : Option FilePath) (steps : List SharedStep),
      (SharedChecker.takeAll { checker := { bundled } } steps).RecallsOwn := by
  intro h
  obtain ⟨hi, hruns, -, hit⟩ := overtaking_run
  obtain ⟨request, hran, hsame⟩ := h none overtaking _ (List.mem_of_getElem? hi) rfl _ hit
  rw [hruns, List.mem_singleton] at hran
  rw [(Prod.mk.inj hran).1] at hsame
  exact absurd hsame (by decide)

end MemoHints
