import MemoHints.Compiler.Checker
import MemoHints.Proofs.ResultCache

/-!
# What each step of a checker does

A check finds the plugin, looks into the cache, asks the compiler and keeps what came of it.  This
file says once what each of these steps can do, so that nobody has to open them again.

The one step with several outcomes is `noteResolved`: it remembers the first place of the plugin,
leaves everything alone while the place stays the same, and clears the cache when it moves.  Places
are the same when their parts are, which is an equivalence of paths but not equality; the place that
is remembered may therefore be spelled otherwise than the one that was found.
-/

namespace MemoHints

namespace FilePath

theorem same_iff {p q : FilePath} : p.same q = true ↔ p.parts = q.parts := by simp [same]

@[simp] theorem same_refl (p : FilePath) : p.same p = true := same_iff.mpr rfl

theorem same_symm {p q : FilePath} (h : p.same q = true) : q.same p = true :=
  same_iff.mpr (same_iff.mp h).symm

theorem same_trans {p q r : FilePath} (h : p.same q = true) (h' : q.same r = true) :
    p.same r = true := same_iff.mpr ((same_iff.mp h).trans (same_iff.mp h'))

end FilePath

namespace Compiler

/-- The compiler cannot tell two spellings of the plugin's path apart. -/
def RespectsPaths (compiler : Compiler) : Prop :=
  ∀ (request : CompileRequest) (p q : FilePath), p.same q = true →
    compiler { request with plugin := p } = compiler { request with plugin := q }

theorem RespectsPaths.diagnose_eq {compiler : Compiler} (h : compiler.RespectsPaths)
    {p q : FilePath} (hpq : p.same q = true) (text filename : String) (root : Option FilePath) :
    compiler.diagnose text filename p root = compiler.diagnose text filename q root := by
  unfold diagnose
  rw [h ⟨text, filename, p, root, .diagnostics⟩ p q hpq]

end Compiler

namespace Checker

variable {tree : FileTree} {compiler : Compiler} {checker : Checker} {location : PluginLocation}

/-! ## Finding the plugin -/

theorem resolve_of_ok {found : FoundPlugin}
    (h : resolvePlugin tree location checker.bundled = .ok found) :
    checker.resolve tree location = (.ok found.path, checker.noteResolved found.path) := by
  simp only [resolve, h]

theorem resolve_of_error {attempts : List ResolveAttempt}
    (h : resolvePlugin tree location checker.bundled = .error attempts) :
    checker.resolve tree location = (.error (.pluginNotFound attempts), checker) := by
  simp only [resolve, h]

/-- All that noting a place can do. -/
theorem noteResolved_cases (checker : Checker) (path : FilePath) :
    (checker.lastResolved = none ∧
      checker.noteResolved path = { checker with lastResolved := some path }) ∨
    (∃ last, checker.lastResolved = some last ∧ last.same path = true ∧
      checker.noteResolved path = checker) ∨
    (∃ last, checker.lastResolved = some last ∧ ¬ last.same path = true ∧
      checker.noteResolved path = { checker.clearCache with lastResolved := some path }) := by
  unfold noteResolved
  cases known : checker.lastResolved with
  | none => exact .inl ⟨rfl, rfl⟩
  | some last =>
    by_cases same : last.same path = true
    · exact .inr (.inl ⟨last, rfl, same, by simp only [same, if_true]⟩)
    · exact .inr (.inr ⟨last, rfl, same, by simp only [same, Bool.false_eq_true, if_false]⟩)

@[simp] theorem noteResolved_bundled (checker : Checker) (path : FilePath) :
    (checker.noteResolved path).bundled = checker.bundled := by
  rcases noteResolved_cases checker path with ⟨-, h⟩ | ⟨_, -, -, h⟩ | ⟨_, -, -, h⟩ <;> rw [h]
  rfl

/-- The place that is remembered is the place that was found, up to its spelling. -/
theorem exists_lastResolved_noteResolved (checker : Checker) (path : FilePath) :
    ∃ last, (checker.noteResolved path).lastResolved = some last ∧ last.same path = true := by
  rcases noteResolved_cases checker path with ⟨-, h⟩ | ⟨last, hlast, same, h⟩ | ⟨_, -, -, h⟩
  · exact ⟨path, by rw [h], path.same_refl⟩
  · exact ⟨last, by rw [h, hlast], same⟩
  · exact ⟨path, by rw [h], path.same_refl⟩

/-! ## The cache -/

@[simp] theorem lookup_bundled (checker : Checker) (text filename : String) :
    (checker.lookup text filename).2.bundled = checker.bundled := rfl

@[simp] theorem keepDraft_bundled (checker : Checker) (draft : Option Draft) :
    (checker.keepDraft draft).bundled = checker.bundled := by cases draft <;> rfl

/-- A result that is found was kept under the key it is asked for with. -/
theorem mem_of_lookup {text filename : String} {result : CompileResult}
    (h : (checker.lookup text filename).1 = some result) :
    (ResultCache.key text filename, result) ∈ checker.cache.entries := Lru.mem_of_get h

theorem mem_of_mem_lookup {text filename : String} {e : String × CompileResult}
    (h : e ∈ (checker.lookup text filename).2.cache.entries) : e ∈ checker.cache.entries :=
  Lru.mem_of_mem_get h

theorem mem_of_mem_keep {text filename : String} {result : CompileResult}
    {e : String × CompileResult} (h : e ∈ (checker.keep text filename result).cache.entries) :
    e = (ResultCache.key text filename, result) ∨
      e ∈ checker.cache.entries ∧ e.1 ≠ ResultCache.key text filename := Lru.mem_of_mem_put h

/-! ## A whole check -/

/-- What a check shows of a run of the compiler: nothing when there is no result. -/
def shown (made : Guarded (Except CompileError CompileResult)) : Guarded CompileResult :=
  made.map fun result => result.toOption.getD {}

/-- What a run of the compiler leaves to be kept: a result, and never a failure. -/
def draftOf (text filename : String) (made : Guarded (Except CompileError CompileResult)) :
    Option Draft :=
  match made with
  | .ok (.ok result) => some ⟨text, filename, result⟩
  | _ => none

/-- Without a plugin there is nothing to show and nobody to ask. -/
theorem examine_of_error {attempts : List ResolveAttempt}
    (h : resolvePlugin tree location checker.bundled = .error attempts) (draft : Option Draft)
    (text filename : String) :
    checker.examine tree compiler draft text filename location =
      { answer := .ok {}, checker := checker.keepDraft draft } := by
  simp only [examine, resolve_of_error h]

/-- A result that was kept is the answer, and nobody is asked. -/
theorem examine_of_hit {found : FoundPlugin}
    (h : resolvePlugin tree location checker.bundled = .ok found) {draft : Option Draft}
    {text filename : String} {result : CompileResult}
    (hit : (((checker.noteResolved found.path).keepDraft draft).lookup text filename).1 =
      some result) :
    checker.examine tree compiler draft text filename location =
      { answer := .ok result
        checker :=
          (((checker.noteResolved found.path).keepDraft draft).lookup text filename).2 } := by
  simp only [examine, resolve_of_ok h]
  generalize ((checker.noteResolved found.path).keepDraft draft).lookup text filename = looked at *
  obtain ⟨first, after⟩ := looked
  cases hit
  rfl

/-- When nothing was kept, the compiler is asked once. -/
theorem examine_of_miss {found : FoundPlugin}
    (h : resolvePlugin tree location checker.bundled = .ok found) {draft : Option Draft}
    {text filename : String}
    (miss : (((checker.noteResolved found.path).keepDraft draft).lookup text filename).1 = none) :
    checker.examine tree compiler draft text filename location =
      { answer := shown (compiler.diagnose text filename found.path location.root)
        asked := [checkRequest text filename found.path location.root]
        draft := draftOf text filename (compiler.diagnose text filename found.path location.root)
        checker :=
          (((checker.noteResolved found.path).keepDraft draft).lookup text filename).2 } := by
  simp only [examine, resolve_of_ok h]
  generalize ((checker.noteResolved found.path).keepDraft draft).lookup text filename = looked at *
  obtain ⟨first, after⟩ := looked
  cases miss
  rcases compiler.diagnose text filename found.path location.root with breakdown | failure | result
  all_goals rfl

/-! A check is an examination whose draft is kept at once. -/

theorem check_of_error {attempts : List ResolveAttempt}
    (h : resolvePlugin tree location checker.bundled = .error attempts) (text filename : String) :
    checker.check tree compiler text filename location = { answer := .ok {}, checker } := by
  unfold check
  rw [examine_of_error h]
  rfl

theorem check_of_hit {found : FoundPlugin}
    (h : resolvePlugin tree location checker.bundled = .ok found) {text filename : String}
    {result : CompileResult}
    (hit : ((checker.noteResolved found.path).lookup text filename).1 = some result) :
    checker.check tree compiler text filename location =
      { answer := .ok result
        checker := ((checker.noteResolved found.path).lookup text filename).2 } := by
  have hit : (((checker.noteResolved found.path).keepDraft none).lookup text filename).1 =
    some result := hit
  unfold check
  rw [examine_of_hit h hit]
  rfl

theorem check_of_miss {found : FoundPlugin}
    (h : resolvePlugin tree location checker.bundled = .ok found) {text filename : String}
    (miss : ((checker.noteResolved found.path).lookup text filename).1 = none) :
    checker.check tree compiler text filename location =
      { answer := shown (compiler.diagnose text filename found.path location.root)
        asked := [checkRequest text filename found.path location.root]
        checker := ((checker.noteResolved found.path).lookup text filename).2.keepDraft
          (draftOf text filename (compiler.diagnose text filename found.path location.root)) } := by
  have miss : (((checker.noteResolved found.path).keepDraft none).lookup text filename).1 = none :=
    miss
  unfold check
  rw [examine_of_miss h miss]
  rfl

end Checker

end MemoHints
