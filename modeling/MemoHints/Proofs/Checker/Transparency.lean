import Mathlib.Data.Set.Function
import MemoHints.Proofs.Checker.Steps
import MemoHints.Proofs.FileTree

/-!
# The cache of a checker cannot be noticed

`freshCheck` is a check without any memory: it finds the plugin, asks the compiler, and shows what
comes of it.  The main statement is `check_eq_freshCheck`: in every run of calls to a new checker,
with files that change as they like in between, each check answers what `freshCheck` answers at that
moment, asks the compiler at most once, and asks it whenever the answer would be a failure.

## Why it holds

An entry of the cache does not say which compiler made it.  What makes it good is an invariant,
`Checker.Faithful`: every entry was made with the plugin that is remembered as the last one.
Whatever moves that plugin also clears the cache, so the invariant has nothing to lose; and a result
is kept right after the plugin was found, so it is kept under the plugin it was made with.  The
second half needs that no other call comes between the two, which is what a run of whole calls
means.

## What is assumed

* Spellings of one path are one path to the compiler (`Compiler.RespectsPaths`).
* The checked texts have different digests.  Digests of all texts cannot be different, as there are
  more texts than digests, so this is said of the texts of a run.
* All checks are for one workspace: keys hold the name of the file and not the root.
-/

namespace MemoHints

/-- A check that remembers nothing. -/
def freshCheck (tree : FileTree) (compiler : Compiler) (bundled : Option FilePath)
    (text filename : String) (location : PluginLocation) : Guarded CompileResult :=
  match resolvePlugin tree location bundled with
  | .error _ => .ok {}
  | .ok found =>
    match compiler ⟨text, filename, found.path, location.root, .diagnostics⟩ with
    | .error breakdown => .error breakdown
    | .ok (.error _) => .ok {}
    | .ok (.ok output) =>
      match output.code with
      | none => .ok {}
      | some _ => .ok (.ofEvents output.events)

section Fresh

variable {tree : FileTree} {compiler : Compiler} {bundled : Option FilePath}
  {location : PluginLocation}

theorem freshCheck_of_error {attempts : List ResolveAttempt}
    (h : resolvePlugin tree location bundled = .error attempts) (text filename : String) :
    freshCheck tree compiler bundled text filename location = .ok {} := by
  simp only [freshCheck, h]

theorem freshCheck_of_ok {found : FoundPlugin}
    (h : resolvePlugin tree location bundled = .ok found) (text filename : String) :
    freshCheck tree compiler bundled text filename location =
      Checker.shown (compiler.diagnose text filename found.path location.root) := by
  simp only [freshCheck, h, Compiler.diagnose]
  rcases compiler ⟨text, filename, found.path, location.root, .diagnostics⟩ with
    breakdown | failure | output
  · rfl
  · rfl
  · rcases output with ⟨_ | code, events⟩ <;> rfl

end Fresh

/-! ## The invariant -/

namespace Checker

/-- Every entry was made with the plugin that was found last, of one of the texts. -/
def Faithful (compiler : Compiler) (root : Option FilePath) (texts : Set String)
    (checker : Checker) : Prop :=
  ∀ e ∈ checker.cache.entries, ∃ text ∈ texts, ∃ filename plugin,
    e.1 = ResultCache.key text filename ∧ checker.lastResolved = some plugin ∧
      compiler.diagnose text filename plugin root = .ok (.ok e.2)

variable {tree : FileTree} {compiler : Compiler} {checker : Checker} {texts : Set String}
  {root : Option FilePath}

theorem faithful_of_entries_eq_nil (h : checker.cache.entries = []) :
    checker.Faithful compiler root texts := by
  intro e he
  rw [h] at he
  cases he

namespace Faithful

theorem clearCache : checker.clearCache.Faithful compiler root texts :=
  faithful_of_entries_eq_nil rfl

/-- A plugin that moves takes all entries with it; one that stays leaves them good. -/
theorem noteResolved (h : checker.Faithful compiler root texts) (path : FilePath) :
    (checker.noteResolved path).Faithful compiler root texts := by
  rcases noteResolved_cases checker path with
    ⟨hnone, hnoted⟩ | ⟨_, -, -, hnoted⟩ | ⟨_, -, -, hnoted⟩
  · -- nothing was found before, so nothing was kept
    intro e he
    rw [hnoted] at he
    obtain ⟨_, _, _, _, _, hsome, _⟩ := h e he
    rw [hnone] at hsome
    cases hsome
  · rw [hnoted]
    exact h
  · rw [hnoted]
    exact faithful_of_entries_eq_nil rfl

theorem resolve (h : checker.Faithful compiler root texts) (location : PluginLocation) :
    (checker.resolve tree location).2.Faithful compiler root texts := by
  cases hfound : resolvePlugin tree location checker.bundled with
  | error attempts =>
    rw [resolve_of_error hfound]
    exact h
  | ok found =>
    rw [resolve_of_ok hfound]
    exact h.noteResolved found.path

theorem lookup (h : checker.Faithful compiler root texts) (text filename : String) :
    (checker.lookup text filename).2.Faithful compiler root texts :=
  fun e he => h e (mem_of_mem_lookup he)

/-- A result may be kept while the plugin it was made with is the last one. -/
theorem keep (h : checker.Faithful compiler root texts) {text filename : String} (ht : text ∈ texts)
    {plugin : FilePath} (hplugin : checker.lastResolved = some plugin) {result : CompileResult}
    (hmade : compiler.diagnose text filename plugin root = .ok (.ok result)) :
    (checker.keep text filename result).Faithful compiler root texts := by
  intro e he
  rcases mem_of_mem_keep he with rfl | ⟨he, -⟩
  · exact ⟨text, ht, filename, plugin, rfl, hplugin, hmade⟩
  · exact h e he

/-- A result that is found is what the compiler would make now. -/
theorem diagnose_eq_of_lookup (h : checker.Faithful compiler root texts)
    (hdigest : Set.InjOn digestOf texts) {text filename : String} (ht : text ∈ texts)
    {result : CompileResult} (hit : (checker.lookup text filename).1 = some result) :
    ∃ plugin, checker.lastResolved = some plugin ∧
      compiler.diagnose text filename plugin root = .ok (.ok result) := by
  obtain ⟨text', ht', filename', plugin, hkey, hplugin, hmade⟩ := h _ (mem_of_lookup hit)
  obtain ⟨rfl, hsame⟩ := ResultCache.key_inj.mp hkey
  obtain rfl := hdigest ht ht' hsame
  exact ⟨plugin, hplugin, hmade⟩

/-- All that a check of a faithful checker can do. -/
theorem check_cases (h : checker.Faithful compiler root texts) (hpaths : compiler.RespectsPaths)
    (hdigest : Set.InjOn digestOf texts) (tree : FileTree) {text : String} (ht : text ∈ texts)
    (filename : String) {location : PluginLocation} (hroot : location.root = root) :
    (∃ attempts, resolvePlugin tree location checker.bundled = .error attempts ∧
      (checker.check tree compiler text filename location).answer = .ok {} ∧
      (checker.check tree compiler text filename location).asked = []) ∨
    (∃ found result, resolvePlugin tree location checker.bundled = .ok found ∧
      compiler.diagnose text filename found.path location.root = .ok (.ok result) ∧
      (checker.check tree compiler text filename location).answer = .ok result ∧
      (checker.check tree compiler text filename location).asked = []) ∨
    (∃ found, resolvePlugin tree location checker.bundled = .ok found ∧
      (checker.check tree compiler text filename location).answer =
        shown (compiler.diagnose text filename found.path location.root) ∧
      (checker.check tree compiler text filename location).asked =
        [checkRequest text filename found.path location.root]) := by
  cases hfound : resolvePlugin tree location checker.bundled with
  | error attempts =>
    refine .inl ⟨attempts, rfl, ?_⟩
    rw [check_of_error hfound]
    exact ⟨rfl, rfl⟩
  | ok found =>
    cases hit : ((checker.noteResolved found.path).lookup text filename).1 with
    | some result =>
      refine .inr (.inl ⟨found, result, rfl, ?_, ?_⟩)
      · obtain ⟨plugin, hplugin, hmade⟩ :=
          (h.noteResolved found.path).diagnose_eq_of_lookup hdigest ht hit
        obtain ⟨last, hlast, hsame⟩ := exists_lastResolved_noteResolved checker found.path
        obtain rfl : last = plugin := Option.some.inj (hlast.symm.trans hplugin)
        rw [hroot, ← hpaths.diagnose_eq hsame, hmade]
      · rw [check_of_hit hfound hit]
        exact ⟨rfl, rfl⟩
    | none =>
      refine .inr (.inr ⟨found, rfl, ?_⟩)
      rw [check_of_miss hfound hit]
      exact ⟨rfl, rfl⟩

theorem check_answer (h : checker.Faithful compiler root texts) (hpaths : compiler.RespectsPaths)
    (hdigest : Set.InjOn digestOf texts) (tree : FileTree) {text : String} (ht : text ∈ texts)
    (filename : String) {location : PluginLocation} (hroot : location.root = root) :
    (checker.check tree compiler text filename location).answer =
      freshCheck tree compiler checker.bundled text filename location := by
  rcases h.check_cases hpaths hdigest tree ht filename hroot with
    ⟨_, hfound, hanswer, -⟩ | ⟨_, _, hfound, hmade, hanswer, -⟩ | ⟨_, hfound, hanswer, -⟩
  · rw [hanswer, freshCheck_of_error hfound]
  · rw [hanswer, freshCheck_of_ok hfound, hmade]
    rfl
  · rw [hanswer, freshCheck_of_ok hfound]

/-- A check keeps the invariant: the draft it keeps was made with the plugin it has just noted. -/
theorem check (h : checker.Faithful compiler root texts) (hpaths : compiler.RespectsPaths)
    {text filename : String} (ht : text ∈ texts) {location : PluginLocation}
    (hroot : location.root = root) :
    (checker.check tree compiler text filename location).checker.Faithful compiler root texts := by
  cases hfound : resolvePlugin tree location checker.bundled with
  | error attempts =>
    rw [check_of_error hfound]
    exact h
  | ok found =>
    have hlooked := (h.noteResolved found.path).lookup text filename
    cases hit : ((checker.noteResolved found.path).lookup text filename).1 with
    | some result =>
      rw [check_of_hit hfound hit]
      exact hlooked
    | none =>
      rw [check_of_miss hfound hit]
      cases hmade : compiler.diagnose text filename found.path location.root with
      | error breakdown => exact hlooked
      | ok made =>
        cases made with
        | error failure => exact hlooked
        | ok result =>
          obtain ⟨last, hlast, hsame⟩ := exists_lastResolved_noteResolved checker found.path
          refine hlooked.keep ht hlast ?_
          rw [hpaths.diagnose_eq hsame, ← hroot, hmade]

end Faithful

@[simp] theorem resolve_bundled (tree : FileTree) (checker : Checker) (location : PluginLocation) :
    (checker.resolve tree location).2.bundled = checker.bundled := by
  unfold resolve
  split
  · exact noteResolved_bundled _ _
  · rfl

@[simp] theorem check_bundled (tree : FileTree) (compiler : Compiler) (checker : Checker)
    (text filename : String) (location : PluginLocation) :
    (checker.check tree compiler text filename location).checker.bundled = checker.bundled := by
  cases hfound : resolvePlugin tree location checker.bundled with
  | error attempts => rw [check_of_error hfound]
  | ok found =>
    cases hit : ((checker.noteResolved found.path).lookup text filename).1 with
    | some result => rw [check_of_hit hfound hit, lookup_bundled, noteResolved_bundled]
    | none => rw [check_of_miss hfound hit, keepDraft_bundled, lookup_bundled, noteResolved_bundled]

/-- Generating code moves a checker as finding the plugin does. -/
theorem compiledOutput_checker (tree : FileTree) (compiler : Compiler) (checker : Checker)
    (text filename : String) (location : PluginLocation) :
    (checker.compiledOutput tree compiler text filename location).checker =
      (checker.resolve tree location).2 := by
  unfold compiledOutput
  split <;> simp only [*]

end Checker

/-! ## Runs -/

/-- A call to a checker, or a change of the files around it. -/
inductive CheckerEvent where
  | check (text filename : String) (location : PluginLocation)
  | runDiagnostics (text filename : String) (plugin : FilePath) (root : Option FilePath)
  | compiledOutput (text filename : String) (location : PluginLocation)
  | resolve (location : PluginLocation)
  | clearCache
  | files (tree : FileTree)

/-- The files and the checker after an event. -/
def CheckerEvent.next (compiler : Compiler) (s : FileTree × Checker) :
    CheckerEvent → FileTree × Checker
  | .check text filename location => (s.1, (s.2.check s.1 compiler text filename location).checker)
  | .runDiagnostics text filename plugin root =>
    (s.1, (s.2.runDiagnostics compiler text filename plugin root).checker)
  | .compiledOutput text filename location =>
    (s.1, (s.2.compiledOutput s.1 compiler text filename location).checker)
  | .resolve location => (s.1, (s.2.resolve s.1 location).2)
  | .clearCache => (s.1, s.2.clearCache)
  | .files tree => (tree, s.2)

/-- The files and the checker after some events. -/
def runEvents (compiler : Compiler) (events : List CheckerEvent) (s : FileTree × Checker) :
    FileTree × Checker :=
  events.foldl (CheckerEvent.next compiler) s

/-- The texts that are checked in a run. -/
def checkedTexts (events : List CheckerEvent) : Set String :=
  {text | ∃ filename location, CheckerEvent.check text filename location ∈ events}

section Runs

variable {compiler : Compiler} {texts : Set String} {root : Option FilePath}

@[simp] theorem CheckerEvent.next_bundled (compiler : Compiler) (s : FileTree × Checker)
    (event : CheckerEvent) : (event.next compiler s).2.bundled = s.2.bundled := by
  cases event with
  | check text filename location => exact Checker.check_bundled _ _ _ _ _ _
  | runDiagnostics text filename plugin root => rfl
  | compiledOutput text filename location =>
    simp only [next, Checker.compiledOutput_checker, Checker.resolve_bundled]
  | resolve location => exact Checker.resolve_bundled _ _ _
  | clearCache => rfl
  | files tree => rfl

theorem runEvents_bundled (compiler : Compiler) (events : List CheckerEvent)
    (s : FileTree × Checker) : (runEvents compiler events s).2.bundled = s.2.bundled := by
  induction events generalizing s with
  | nil => rfl
  | cons event events ih => exact (ih _).trans (event.next_bundled compiler s)

/-- One event keeps the invariant. -/
theorem CheckerEvent.next_faithful (hpaths : compiler.RespectsPaths) {s : FileTree × Checker}
    (h : s.2.Faithful compiler root texts) {event : CheckerEvent}
    (hcheck : ∀ text filename location, event = .check text filename location →
      text ∈ texts ∧ location.root = root) :
    (event.next compiler s).2.Faithful compiler root texts := by
  cases event with
  | check text filename location =>
    obtain ⟨ht, hroot⟩ := hcheck text filename location rfl
    exact h.check hpaths ht hroot
  | runDiagnostics text filename plugin root => exact h
  | compiledOutput text filename location =>
    simp only [next, Checker.compiledOutput_checker]
    exact h.resolve location
  | resolve location => exact h.resolve location
  | clearCache => exact Checker.Faithful.clearCache
  | files tree => exact h

theorem runEvents_faithful (hpaths : compiler.RespectsPaths) {events : List CheckerEvent}
    {s : FileTree × Checker} (h : s.2.Faithful compiler root texts)
    (hcheck : ∀ text filename location, .check text filename location ∈ events →
      text ∈ texts ∧ location.root = root) :
    (runEvents compiler events s).2.Faithful compiler root texts := by
  induction events generalizing s with
  | nil => exact h
  | cons event events ih =>
    refine ih (CheckerEvent.next_faithful hpaths h ?_) ?_
    · rintro text filename location rfl
      exact hcheck text filename location List.mem_cons_self
    · intro text filename location hmem
      exact hcheck text filename location (List.mem_cons_of_mem _ hmem)

end Runs

/-- **Memory cannot be noticed.**  Every check in a run of a new checker answers what a check
without memory answers at that moment.  It asks the compiler at most once, not at all without a
plugin, and always when the compiler has no result for it, as failures are not kept. -/
theorem check_eq_freshCheck {compiler : Compiler} (hpaths : compiler.RespectsPaths)
    (tree : FileTree) (bundled : Option FilePath) {events before after : List CheckerEvent}
    {root : Option FilePath} {text filename : String} {location : PluginLocation}
    (hroot : ∀ text filename location, .check text filename location ∈ events →
      location.root = root)
    (hdigest : Set.InjOn digestOf (checkedTexts events))
    (hevents : events = before ++ .check text filename location :: after) :
    let s := runEvents compiler before (tree, { bundled })
    let step := s.2.check s.1 compiler text filename location
    step.answer = freshCheck s.1 compiler bundled text filename location ∧
    step.asked.length ≤ 1 ∧
    (∀ attempts, resolvePlugin s.1 location bundled = .error attempts → step.asked = []) ∧
    (∀ found, resolvePlugin s.1 location bundled = .ok found →
      (∀ result, compiler.diagnose text filename found.path location.root ≠ .ok (.ok result)) →
      step.asked = [Checker.checkRequest text filename found.path location.root]) := by
  intro s step
  have hbundled : s.2.bundled = bundled := runEvents_bundled compiler before _
  have hthis : .check text filename location ∈ events := by
    rw [hevents]
    exact List.mem_append_right _ List.mem_cons_self
  have ht : text ∈ checkedTexts events := ⟨filename, location, hthis⟩
  have hfaithful : s.2.Faithful compiler root (checkedTexts events) := by
    refine runEvents_faithful hpaths (Checker.faithful_of_entries_eq_nil rfl) ?_
    intro text filename location hmem
    have hmem : .check text filename location ∈ events := by
      rw [hevents]
      exact List.mem_append_left _ hmem
    exact ⟨⟨filename, location, hmem⟩, hroot _ _ _ hmem⟩
  have hcases := hfaithful.check_cases hpaths hdigest s.1 ht filename (hroot _ _ _ hthis)
  have hanswer := hfaithful.check_answer hpaths hdigest s.1 ht filename (hroot _ _ _ hthis)
  rw [hbundled] at hcases hanswer
  refine ⟨hanswer, ?_⟩
  rcases hcases with ⟨attempts, hnone, -, hasked⟩ | ⟨found, result, hfound, hmade, -, hasked⟩ |
    ⟨found, hfound, -, hasked⟩
  · refine ⟨by rw [hasked]; decide, fun _ _ => hasked, ?_⟩
    intro found hfound
    rw [hnone] at hfound
    cases hfound
  · refine ⟨by rw [hasked]; decide, fun _ _ => hasked, ?_⟩
    intro found' hfound' hfails
    obtain rfl : found = found' := Except.ok.inj (hfound.symm.trans hfound')
    exact absurd hmade (hfails result)
  · refine ⟨by rw [hasked]; rfl, ?_, ?_⟩
    · intro attempts hnone
      rw [hnone] at hfound
      cases hfound
    · intro found' hfound' _
      obtain rfl : found = found' := Except.ok.inj (hfound.symm.trans hfound')
      exact hasked

/-! A compiler that works with one plugin only, and a workspace with two plugins: the check with the
other plugin fails, and fails again after the plugin was back at its first place in between. -/

/-- A compiler that works with one plugin only. -/
def choosyCompiler (liked : FilePath) : Compiler := fun request =>
  .ok (if liked.same request.plugin then .ok { code := some "" } else .error .noOutput)

theorem choosyCompiler_respectsPaths (liked : FilePath) : (choosyCompiler liked).RespectsPaths := by
  intro request p q hpq
  have hsame : liked.same p = liked.same q := by
    simp only [FilePath.same, FilePath.same_iff.mp hpq]
  simp only [choosyCompiler, hsame]

/-- The names `p` and `q` of two plugins. -/
def twoPlugins : FileTree :=
  { root := .folder [([0x70], .file [] false), ([0x71], .file [] false)], cwd := [] }

/-- The plugin of a name of one byte, in the workspace of all files. -/
def pluginNamed (name : UInt8) : PluginLocation := ⟨some ⟨[FilePath.slash]⟩, ⟨[name]⟩⟩

theorem resolvePlugin_pluginNamed {name : UInt8} (h : name = 0x70 ∨ name = 0x71)
    (bundled : Option FilePath) :
    resolvePlugin twoPlugins (pluginNamed name) bundled =
      .ok ⟨⟨[FilePath.slash, name]⟩, .workspace⟩ := by
  have hroot : twoPlugins.entry ⟨[FilePath.slash]⟩ = .ok twoPlugins.root := FileTree.entry_slash rfl
  have hname : Name.IsPlain [name] := by
    rcases h with rfl | rfl <;> constructor <;> decide
  have hmember : twoPlugins.entry (FilePath.join ⟨[FilePath.slash]⟩ ⟨[name]⟩) =
      .ok (.file [] false) := by
    refine FileTree.entry_join_name hroot hname ?_ (fun _ => nofun)
    rcases h with rfl | rfl <;> rfl
  have hjoin : FilePath.join ⟨[FilePath.slash]⟩ ⟨[name]⟩ = ⟨[FilePath.slash, name]⟩ := by
    rcases h with rfl | rfl <;> rfl
  rw [hjoin] at hmember
  simp [resolvePlugin, tryPlugin, PluginLocation.candidate, pluginNamed, hjoin, FileTree.contains,
    hmember, Except.isOk, Except.toBool]

theorem check_asks_again_after_failure :
    let compiler := choosyCompiler ⟨[FilePath.slash, 0x70]⟩
    let before : List CheckerEvent :=
      [.check "a" "a.ts" (pluginNamed 0x70), .check "a" "a.ts" (pluginNamed 0x71),
        .check "b" "a.ts" (pluginNamed 0x70)]
    let s := runEvents compiler before (twoPlugins, {})
    let step := s.2.check s.1 compiler "a" "a.ts" (pluginNamed 0x71)
    step.answer = .ok {} ∧
    step.asked = [Checker.checkRequest "a" "a.ts" ⟨[FilePath.slash, 0x71]⟩
      (some ⟨[FilePath.slash]⟩)] := by
  intro compiler before s step
  have hevents : ∀ text filename location,
      .check text filename location ∈ before ++ [.check "a" "a.ts" (pluginNamed 0x71)] →
        (text = "a" ∨ text = "b") ∧ location.root = some ⟨[FilePath.slash]⟩ := by
    intro text filename location h
    simp only [before, List.cons_append, List.nil_append, List.mem_cons, List.not_mem_nil,
      or_false, CheckerEvent.check.injEq] at h
    rcases h with ⟨rfl, -, rfl⟩ | ⟨rfl, -, rfl⟩ | ⟨rfl, -, rfl⟩ | ⟨rfl, -, rfl⟩ <;>
      simp [pluginNamed]
  have hdigest : Set.InjOn digestOf
      (checkedTexts (before ++ [.check "a" "a.ts" (pluginNamed 0x71)])) := by
    have hne : digestOf "a" ≠ digestOf "b" := by decide +kernel
    rintro text ⟨_, _, h⟩ text' ⟨_, _, h'⟩ hsame
    rcases (hevents _ _ _ h).1 with rfl | rfl <;> rcases (hevents _ _ _ h').1 with rfl | rfl
    · rfl
    · exact absurd hsame hne
    · exact absurd hsame.symm hne
    · rfl
  have hfound : resolvePlugin twoPlugins (pluginNamed 0x71) none = _ :=
    resolvePlugin_pluginNamed (.inr rfl) none
  obtain ⟨hanswer, -, -, hasked⟩ := check_eq_freshCheck
    (choosyCompiler_respectsPaths ⟨[FilePath.slash, 0x70]⟩) twoPlugins none
    (fun text filename location h => (hevents text filename location h).2) hdigest rfl
  refine ⟨hanswer.trans (freshCheck_of_ok hfound _ _), hasked _ hfound ?_⟩
  intro result hresult
  cases hresult

end MemoHints
