import MemoHints.Proofs.CommandLine.ServerWords

/-!
# Lines without a command

A line that lacks its command is read as one for the server, with the server named after the flags
that lead the line.  So the options of the line are those that the server would be given
(`read_without_command`).  Its level is not always so: flags that lead are given to the program and
those that follow to the server, and the server's replace the program's of the same kind.
-/

namespace MemoHints.CommandLine

variable {environment : List (String × String)} {words : List String}

/-! ## Lines that stay refused -/

/-- A command that a refused line names is never replaced by the server. -/
theorem NamesCommand.read_error (h : NamesCommand words)
    (hrefused : ∃ e, readStrict environment words = .error e) :
    ∃ e, read environment words = .error e := by
  obtain ⟨e, hstrict⟩ := hrefused
  rw [read, hstrict]
  simp only
  split
  · obtain ⟨hled, -⟩ | ⟨e', -, hend⟩ := scanTop_cases words
    · rw [readStrict_withServer hled, readCommand_eq]
      cases hoptions : readOptions environment .lsp (following words) with
      | error e' => exact ⟨e', rfl⟩
      | ok inner => exact absurd hoptions (h.after_leading.readOptions_ne_ok inner)
    · refine ⟨e', ?_⟩
      have hscan := hend (CommandName.lsp.name :: following words)
      rw [leading, following] at hscan
      rw [readStrict_eq, withServer, hscan]
  · exact ⟨e, rfl⟩

/-- A line that is not refused at its top is not read in another way than it is written. -/
theorem read_error_of_not_refusedAtTop (htop : ¬ RefusedAtTop words)
    (hrefused : ∃ e, readStrict environment words = .error e) :
    ∃ e, read environment words = .error e := by
  obtain ⟨e, hstrict⟩ := hrefused
  have hwords : readStrict environment words = _ := readStrict_eq words
  cases hscan : scanTop {} words with
  | error e' =>
    rw [hscan] at hwords
    rw [read, hwords]
    have hmay : mayLackCommand e' words = false := by
      cases e' with
      | noCommand => exact absurd hscan (scanTop_ne_noCommand {} words)
      | unknownArgument word => exact absurd (.unknownArgument hscan) htop
      | _ => rfl
    exact ⟨e', by simp [hmay]⟩
  | ok found =>
    obtain ⟨outer, _ | ⟨command, rest⟩⟩ := found
    · exact absurd (.noCommand hscan) htop
    · exact (namesCommand_of_scanTop hscan).read_error ⟨e, hstrict⟩

/-! ## The level of a line without its command -/

/-- How often a flag counts. -/
def Flag.count (flag : Flag) (words : List String) : Nat := min (flag.times words) maxCount

/-- The level that a line without its command asks for: what leads the line counts only where
nothing of its kind follows. -/
def serverLevel (words : List String) : LogLevel :=
  .ofFlags (innermost (Flag.verbose.count (leading words)) (Flag.verbose.count (following words)))
    (innermost (Flag.quiet.count (leading words)) (Flag.quiet.count (following words)))

/-- A flag stands among those that lead the line and again after them. -/
def Flag.Returns (flag : Flag) (words : List String) : Prop :=
  0 < flag.times (leading words) ∧ 0 < flag.times (following words)

/-- Of two flags one only leads the line and the other only follows. -/
def Flag.Precedes (flag other : Flag) (words : List String) : Prop :=
  0 < flag.times (leading words) ∧ other.times (leading words) = 0 ∧
    flag.times (following words) = 0 ∧ 0 < other.times (following words)

section Level

variable {inner : Given}

theorem led_counts (words : List String) :
    (led words).Counts (Flag.verbose.times (leading words)) (Flag.quiet.times (leading words)) := by
  have hstart : Given.Counts 0 0 {} := ⟨rfl, rfl⟩
  exact hstart.raisedBy _ _

/-- The server's options do not depend on the flags that lead. -/
theorem invocation_led (h : inner.Counts (Flag.verbose.times (following words))
      (Flag.quiet.times (following words))) (outer : Given) :
    invocation (led words) .lsp inner =
      { invocation outer .lsp inner with level := serverLevel words } := by
  obtain ⟨hverbose, hquiet⟩ := h
  obtain ⟨hledVerbose, hledQuiet⟩ := led_counts words
  unfold invocation
  rw [hverbose, hquiet, hledVerbose, hledQuiet]
  rfl

/-- Where no flag is in both places, each counts the same wherever it stands. -/
theorem serverLevel_eq (h : inner.Counts (Flag.verbose.times (following words))
      (Flag.quiet.times (following words)))
    (hverbose : ¬ Flag.verbose.Returns words) (hquiet : ¬ Flag.quiet.Returns words) :
    serverLevel words =
      (invocation {} .lsp (inner.raisedBy (Flag.verbose.times (leading words))
        (Flag.quiet.times (leading words)))).level := by
  have hone : ∀ {m n : Nat}, ¬ (0 < m ∧ 0 < n) →
      innermost (min m maxCount) (min n maxCount) = innermost 0 (min (m + n) maxCount) := by
    intro m n hmn
    unfold innermost maxCount
    split <;> split <;> omega
  obtain ⟨hraisedVerbose, hraisedQuiet⟩ := h.raisedBy (Flag.verbose.times (leading words))
    (Flag.quiet.times (leading words))
  unfold serverLevel invocation
  rw [hraisedVerbose, hraisedQuiet, ← hone hverbose, ← hone hquiet]
  rfl

end Level

section RefusedAtTop

variable (htop : RefusedAtTop words)
include htop

/-- Without options that the server can take, no line with the server in it can be read. -/
theorem RefusedAtTop.lines_of_error {e : UsageError}
    (h : readOptions environment .lsp (following words) = .error e) :
    readStrict environment (CommandName.lsp.name :: words) = .error e ∧
      read environment words = .error e ∧
      readStrict environment (CommandName.lsp.name :: following words) = .error e := by
  obtain ⟨hled, hfold⟩ := htop.scan_leading
  rw [htop.read_eq.2, readStrict_withServer hled, readStrict_server, readStrict_server,
    readCommand_eq, readCommand_eq, readOptions_of_leading hfold, h]
  exact ⟨rfl, rfl, rfl⟩

/-- The lines with the server in them differ only in which flags stand together. -/
theorem RefusedAtTop.lines_of_ok {inner : Given}
    (h : readOptions environment .lsp (following words) = .ok inner) :
    readStrict environment (CommandName.lsp.name :: words) =
      (if 0 < Flag.verbose.times (leading words) + Flag.verbose.times (following words) ∧
          0 < Flag.quiet.times (leading words) + Flag.quiet.times (following words)
        then .error (.conflict Flag.quiet.name)
        else .ok (invocation {} .lsp (inner.raisedBy (Flag.verbose.times (leading words))
          (Flag.quiet.times (leading words))))) ∧
    read environment words =
      (if 0 < Flag.verbose.times (following words) ∧ 0 < Flag.quiet.times (following words) ∨
          0 < Flag.verbose.times (leading words) ∧ 0 < Flag.quiet.times (leading words)
        then .error (.conflict Flag.quiet.name) else .ok (invocation (led words) .lsp inner)) ∧
    readStrict environment (CommandName.lsp.name :: following words) =
      (if 0 < Flag.verbose.times (following words) ∧ 0 < Flag.quiet.times (following words)
        then .error (.conflict Flag.quiet.name) else .ok (invocation {} .lsp inner)) := by
  obtain ⟨hled, hfold⟩ := htop.scan_leading
  have hinner := readOptions_counts h
  have hraised := hinner.raisedBy (Flag.verbose.times (leading words))
    (Flag.quiet.times (leading words))
  rw [htop.read_eq.2, readStrict_withServer hled, readStrict_server, readStrict_server,
    readCommand_eq, readCommand_eq, readOptions_of_leading hfold, h]
  refine ⟨hraised.checked_bind _, ?_, hinner.checked_bind _⟩
  refine (hinner.checked_bind _).trans ?_
  rw [(led_counts words).checked_bind]
  split
  next hfollowing => exact (if_pos (.inl hfollowing)).symm
  next hfollowing =>
    split
    next hleading => exact (if_pos (.inr hleading)).symm
    next hleading => exact (if_neg (not_or.mpr ⟨hfollowing, hleading⟩)).symm

end RefusedAtTop

/-! ## Whole lines -/

theorem insertIdx_length_append (front back : List String) (word : String) :
    (front ++ back).insertIdx front.length word = front ++ word :: back := by
  induction front with
  | nil => rfl
  | cons first front ih => simp [ih]

/-- There is always a place for the server on a line. -/
theorem insertAt?_serverIndex (arguments : List String) (word : String) :
    insertAt? (serverIndex arguments) word arguments =
      some (arguments.insertIdx (serverIndex arguments) word) :=
  if_pos (Nat.min_le_right _ _)

/-- Behind the name of the program the server is named after the flags that lead. -/
theorem drop_insertIdx_serverIndex (program : String) (words : List String) :
    ((program :: words).insertIdx (serverIndex (program :: words)) CommandName.lsp.name).drop 1 =
      withServer words := by
  have hindex : serverIndex (program :: words) = (leading words).length + 1 := by
    have hle : (leading words).length ≤ words.length := (List.takeWhile_prefix _).length_le
    simp only [serverIndex, List.drop_one, List.tail_cons, List.length_cons]
    rw [leading] at hle ⊢
    omega
  have hplace := insertIdx_length_append (leading words) (following words) CommandName.lsp.name
  rw [leading_append_following] at hplace
  rw [hindex, List.insertIdx_succ_cons, List.drop_one, List.tail_cons, hplace]
  rfl

theorem readArguments_cons (program : String) (words : List String) :
    readArguments environment (program :: words) = some (read environment words) := by
  unfold readArguments read
  rw [List.drop_one, List.tail_cons, insertAt?_serverIndex, Option.map_some,
    drop_insertIdx_serverIndex]
  split
  · rfl
  · split <;> rfl

/-- A line that is read with its command means what it says.  A line that is refused at its top
means what the server's line with the same words means, command and options, at the level at which
the flags that lead count only where nothing of their kind follows; that is the level of the
server's line unless a flag that leads returns.  If the server's line is refused as well then so is
the line, unless the only louder flags lead and the only quieter ones follow, or the other way
around: on the server's line these exclude each other, and apart they do not.  All other refused
lines stay refused, among them all that name a command.  A place for the server is always found,
even on an empty line, which has no name of a program. -/
theorem read_without_command (environment : List (String × String)) (words : List String) :
    (∀ found, readStrict environment words = .ok found → read environment words = .ok found) ∧
    (RefusedAtTop words →
      (∀ found, readStrict environment (CommandName.lsp.name :: words) = .ok found →
        read environment words = .ok { found with level := serverLevel words } ∧
        (¬ Flag.verbose.Returns words → ¬ Flag.quiet.Returns words →
          serverLevel words = found.level)) ∧
      ((∃ e, readStrict environment (CommandName.lsp.name :: words) = .error e) →
        ¬ Flag.verbose.Precedes .quiet words → ¬ Flag.quiet.Precedes .verbose words →
        ∃ e, read environment words = .error e) ∧
      (Flag.verbose.Precedes .quiet words ∨ Flag.quiet.Precedes .verbose words →
        (∃ e, readStrict environment (CommandName.lsp.name :: words) = .error e) ∧
        read environment words =
          (readStrict environment (CommandName.lsp.name :: following words)).map
            fun found => { found with level := serverLevel words })) ∧
    (¬ RefusedAtTop words → (∃ e, readStrict environment words = .error e) →
      ∃ e, read environment words = .error e) ∧
    (NamesCommand words → (∃ e, readStrict environment words = .error e) →
      ∃ e, read environment words = .error e) ∧
    (∀ program, readArguments environment (program :: words) = some (read environment words)) ∧
    readArguments environment [] = some (.error .noCommand) := by
  refine ⟨fun found hfound => ?_, fun htop => ?_, read_error_of_not_refusedAtTop,
    NamesCommand.read_error, fun program => ?_, ?_⟩
  · rw [read, hfound]
  · cases hoptions : readOptions environment .lsp (following words) with
    | error e =>
      obtain ⟨hserver, hread, hfollowing⟩ := htop.lines_of_error hoptions
      rw [hserver, hread, hfollowing]
      refine ⟨fun found hfound => ?_, fun _ _ _ => ⟨e, rfl⟩, fun _ => ⟨⟨e, rfl⟩, rfl⟩⟩
      cases hfound
    | ok inner =>
      have hinner := readOptions_counts hoptions
      obtain ⟨hserver, hread, hfollowing⟩ := htop.lines_of_ok hoptions
      rw [hserver, hread, hfollowing, invocation_led hinner {}]
      refine ⟨fun found hfound => ?_, fun hrefused hverbose hquiet => ?_, fun hparted => ?_⟩
      · split at hfound
        next => cases hfound
        next hapart =>
          cases hfound
          rw [if_neg (by omega)]
          exact ⟨rfl, serverLevel_eq hinner⟩
      · obtain ⟨e, he⟩ := hrefused
        unfold Flag.Precedes at hverbose hquiet
        split at he
        next hboth => exact ⟨_, if_pos (by omega)⟩
        next => cases he
      · unfold Flag.Precedes at hparted
        refine ⟨⟨_, if_pos (by omega)⟩, ?_⟩
        rw [if_neg (by omega), if_neg (by omega)]
        rfl
  · exact readArguments_cons program words
  · rfl

/-- One line for each way to be read or refused. -/
theorem read_lines :
    read [] ["-v", "report", "src"] = .ok
      { level := .debug, compiler := {}, order := .report { root := .ofString "src" } } ∧
    read [] ["-v", "--stdio"] = .ok { level := .debug, compiler := {}, order := .serve true } ∧
    serverLevel ["-v", "--stdio"] = .debug ∧
    (∃ e, read [] ["--node", "report", "lsp"] = .error e) ∧
    read [] ["-v", "--stdio", "-q"] = .ok { level := .info, compiler := {}, order := .serve true } ∧
    (∃ e, read [] ["deploy"] = .error e) ∧
    (∃ e, read [] ["report", "--stdio"] = .error e) := by
  have hreport := read_without_command [] ["-v", "report", "src"]
  have hstdio := (read_without_command [] ["-v", "--stdio"]).2.1 (.unknownArgument rfl)
  have hnode := (read_without_command [] ["--node", "report", "lsp"]).2.1 (.unknownArgument rfl)
  have hparted := (read_without_command [] ["-v", "--stdio", "-q"]).2.1 (.unknownArgument rfl)
  have hdeploy := (read_without_command [] ["deploy"]).2.2.1
  have hnamed := (read_without_command [] ["report", "--stdio"]).2.2.2.1
  refine ⟨hreport.1 _ rfl, (hstdio.1 _ rfl).1, (hstdio.1 _ rfl).2 ?_ ?_, ?_, ?_, ?_, ?_⟩
  · show ¬ (0 < 1 ∧ 0 < 0)
    decide
  · show ¬ (0 < 0 ∧ 0 < 0)
    decide
  · refine hnode.2.1 ⟨_, rfl⟩ (fun h => ?_) (fun h => ?_)
    · exact absurd h.1 (Nat.lt_irrefl 0)
    · exact absurd h.1 (Nat.lt_irrefl 0)
  · exact (hparted.2.2 (.inl ⟨Nat.one_pos, rfl, rfl, Nat.one_pos⟩)).2
  · exact hdeploy nofun ⟨_, rfl⟩
  · exact hnamed ⟨[], .report, ["--stdio"], rfl, nofun⟩ ⟨_, rfl⟩

/-- Flags around an option are not what they are together on the server's line: two louder ones make
one step instead of two, and a louder and a quieter one are not refused. -/
theorem flags_around_stdio :
    RefusedAtTop ["-v", "--stdio", "-v"] ∧
      readStrict [] [CommandName.lsp.name, "-v", "--stdio", "-v"] =
        .ok { level := .trace, compiler := {}, order := .serve true } ∧
      read [] ["-v", "--stdio", "-v"] =
        .ok { level := .debug, compiler := {}, order := .serve true } ∧
      RefusedAtTop ["-v", "--stdio", "-q"] ∧
      readStrict [] [CommandName.lsp.name, "-v", "--stdio", "-q"] = .error (.conflict "quiet") ∧
      read [] ["-v", "--stdio", "-q"] =
        .ok { level := .info, compiler := {}, order := .serve true } :=
  ⟨.unknownArgument rfl, rfl, rfl, .unknownArgument rfl, rfl, rfl⟩

end MemoHints.CommandLine
