import Mathlib.Data.List.TakeWhile
import MemoHints.Proofs.CommandLine.Flags

/-!
# The top of a line

What stands before the command of a line is read on its own.  The flags that lead a line are taken
in the same way by the program and by the server, so the server can be named behind them.
-/

namespace MemoHints.CommandLine

variable {environment : List (String × String)} {words : List String}

/-- Reads the flags before the command, and what follows it stays unread. -/
def scanTop : Given → List String → Except UsageError (Given × Option (CommandName × List String))
  | given, [] => .ok (given, none)
  | given, word :: rest =>
    if !given.onlyWords && word = "help" then .error (helpOn rest)
    else
      match if given.onlyWords then none else CommandName.ofName? word with
      | some command => .ok (given, some (command, rest))
      | none => do scanTop (← topGrammar.take given word) rest

/-- The line is refused at its top: its command is missing, or there is an unknown argument before
any command. -/
inductive RefusedAtTop (words : List String) : Prop where
  | noCommand {outer : Given} : scanTop {} words = .ok (outer, none) → RefusedAtTop words
  | unknownArgument {word : String} : scanTop {} words = .error (.unknownArgument word) →
    RefusedAtTop words

theorem readTop_eq (given : Given) (words : List String) :
    readTop environment given words = do
      match ← scanTop given words with
      | (outer, none) => .ok (outer, none)
      | (outer, some (command, rest)) => do
        let inner ← readCommand environment command rest
        return (outer, some (command, inner)) := by
  induction words generalizing given with
  | nil => rfl
  | cons word rest ih =>
    unfold readTop scanTop
    split
    · rfl
    · cases (if given.onlyWords then none else CommandName.ofName? word) with
      | some command => rfl
      | none =>
        cases topGrammar.take given word with
        | error e => rfl
        | ok next => exact ih next

/-- A line is its top, then its command. -/
theorem readStrict_eq (words : List String) :
    readStrict environment words =
      match scanTop {} words with
      | .error e => .error e
      | .ok (_, none) => .error .noCommand
      | .ok (outer, some (command, rest)) => do
        let inner ← readCommand environment command rest
        return invocation (← outer.checked) command inner := by
  unfold readStrict
  rw [readTop_eq]
  cases scanTop {} words with
  | error e => rfl
  | ok found =>
    obtain ⟨outer, _ | ⟨command, rest⟩⟩ := found
    · rfl
    · simp only [bind, Except.bind]
      cases readCommand environment command rest <;> rfl

/-! ## A missing command shows at the end only -/

namespace Given

theorem add_ne_noCommand (given : Given) (setting : Setting) (value : String) :
    given.add setting value ≠ .error .noCommand := by
  have hfault : setting.fault? value ≠ some .noCommand := by
    unfold Setting.fault?
    split
    all_goals first | (split <;> nofun) | nofun
  unfold add
  split
  · nofun
  · split
    next e he =>
      rintro ⟨⟩
      exact hfault he
    next => nofun

theorem settle_ne_noCommand (given : Given) : given.settle ≠ .error .noCommand := by
  unfold settle
  split
  · nofun
  · nofun
  · exact add_ne_noCommand _ _ _

theorem raise_ne_noCommand (given : Given) (flag : Flag) :
    given.raise flag ≠ .error .noCommand := by
  refine bind_ne_error given.settle_ne_noCommand fun settled => ?_
  cases flag with
  | help | version | verbose | quiet => nofun
  | stdio =>
    simp only
    split <;> nofun

end Given

namespace Grammar

variable (grammar : Grammar) (given : Given)

theorem plainWord_ne_noCommand (word : String) :
    grammar.plainWord given word ≠ .error .noCommand := by
  unfold plainWord
  split
  · exact bind_ne_error given.settle_ne_noCommand fun _ => nofun
  · unfold strayWord
    split
    · nofun
    · split <;> nofun

theorem longOption_ne_noCommand (name : String) (value : Option String) :
    grammar.longOption given name value ≠ .error .noCommand := by
  unfold longOption
  split
  · exact given.raise_ne_noCommand _
  · nofun
  · exact bind_ne_error given.settle_ne_noCommand fun _ => nofun
  · exact bind_ne_error given.settle_ne_noCommand fun settled => settled.add_ne_noCommand _ _
  · nofun

theorem letter_ne_noCommand (c : Char) : grammar.letter given c ≠ .error .noCommand := by
  unfold letter
  split
  · exact given.raise_ne_noCommand _
  · nofun

theorem take_ne_noCommand (word : String) : grammar.take given word ≠ .error .noCommand := by
  unfold take
  split
  · exact grammar.plainWord_ne_noCommand given word
  · split
    · nofun
    · exact grammar.longOption_ne_noCommand given _ _
    · exact foldlM_ne_error grammar.letter_ne_noCommand _ _
    · split
      · nofun
      · exact grammar.plainWord_ne_noCommand given word

end Grammar

theorem scanTop_ne_noCommand (given : Given) (words : List String) :
    scanTop given words ≠ .error .noCommand := by
  induction words generalizing given with
  | nil => nofun
  | cons word rest ih =>
    unfold scanTop
    split
    · unfold helpOn
      split
      · nofun
      · split
        · split <;> nofun
        · nofun
    · split
      · nofun
      · exact bind_ne_error (topGrammar.take_ne_noCommand given word) ih

/-! ## Leading flags -/

/-- A leading flag is counted, also on the server's level, or it asks for help or the version. -/
theorem take_leading {word : String} (hword : isLeading word = true) :
    (∀ grammar ∈ [topGrammar, CommandName.lsp.grammar], grammar.take {} word =
      .ok (Given.raisedBy (Flag.verbose.countIn word) (Flag.quiet.countIn word) {})) ∨
    topGrammar.take {} word = .error .help ∨ topGrammar.take {} word = .error .version := by
  simp only [isLeading, List.mem_cons, List.not_mem_nil, or_false, decide_eq_true_eq] at hword
  simp only [List.forall_mem_cons, List.not_mem_nil, false_implies, implies_true, and_true]
  obtain rfl | rfl | rfl | rfl | rfl | rfl | rfl | rfl | rfl | rfl | rfl | rfl | rfl | rfl := hword
  case _ | _ | _ | _ | _ | _ | _ | _ | _ | _ => exact .inl ⟨rfl, rfl⟩
  case _ | _ => exact .inr (.inl rfl)
  case _ | _ => exact .inr (.inr rfl)

theorem take_leading_raisedBy {word : String} (hword : isLeading word = true)
    (louder quieter : Nat) :
    (∀ grammar ∈ [topGrammar, CommandName.lsp.grammar],
      grammar.take (Given.raisedBy louder quieter {}) word =
        .ok (Given.raisedBy (louder + Flag.verbose.countIn word)
          (quieter + Flag.quiet.countIn word) {})) ∨
    topGrammar.take (Given.raisedBy louder quieter {}) word = .error .help ∨
    topGrammar.take (Given.raisedBy louder quieter {}) word = .error .version := by
  simp only [Grammar.take_raisedBy]
  refine (take_leading hword).imp (fun h grammar hgrammar => ?_)
    (.imp (fun h => by rw [h]; rfl) (fun h => by rw [h]; rfl))
  rw [h grammar hgrammar, Except.map, Given.raisedBy_raisedBy, Nat.add_comm louder,
    Nat.add_comm quieter]

theorem scanTop_cons_leading {word : String} (hword : isLeading word = true) (louder quieter : Nat)
    (rest : List String) :
    scanTop (Given.raisedBy louder quieter {}) (word :: rest) =
      topGrammar.take (Given.raisedBy louder quieter {}) word >>= (scanTop · rest) := by
  have hother : word ≠ "help" ∧ CommandName.ofName? word = none := by
    simp only [isLeading, List.mem_cons, List.not_mem_nil, or_false, decide_eq_true_eq] at hword
    obtain rfl | rfl | rfl | rfl | rfl | rfl | rfl | rfl | rfl | rfl | rfl | rfl | rfl | rfl :=
      hword
    all_goals exact ⟨by decide, rfl⟩
  rw [scanTop]
  simp [hother, Given.raisedBy]

/-- Leading flags are taken alike by the program and by the server, or end the reading. -/
theorem scanTop_leading {leading : List String} (hleading : ∀ word ∈ leading, isLeading word = true)
    (louder quieter : Nat) :
    ((∀ rest, scanTop (Given.raisedBy louder quieter {}) (leading ++ rest) =
        scanTop (Given.raisedBy (louder + Flag.verbose.times leading)
          (quieter + Flag.quiet.times leading) {}) rest) ∧
      leading.foldlM CommandName.lsp.grammar.take (Given.raisedBy louder quieter {}) =
        .ok (Given.raisedBy (louder + Flag.verbose.times leading)
          (quieter + Flag.quiet.times leading) {})) ∨
    ∃ e, (e = .help ∨ e = .version) ∧
      ∀ rest, scanTop (Given.raisedBy louder quieter {}) (leading ++ rest) = .error e := by
  induction leading generalizing louder quieter with
  | nil => exact .inl ⟨fun _ => rfl, rfl⟩
  | cons word leading ih =>
    obtain ⟨hword, hleading⟩ := List.forall_mem_cons.mp hleading
    simp only [List.cons_append, scanTop_cons_leading hword, List.foldlM_cons]
    obtain h | h | h := take_leading_raisedBy hword louder quieter
    · rw [h topGrammar (by simp), h CommandName.lsp.grammar (by simp), Flag.times_cons,
        Flag.times_cons, ← Nat.add_assoc, ← Nat.add_assoc]
      exact ih hleading _ _
    · exact .inr ⟨_, .inl rfl, fun _ => by rw [h]; rfl⟩
    · exact .inr ⟨_, .inr rfl, fun _ => by rw [h]; rfl⟩

/-- The flags that lead a line. -/
def leading (words : List String) : List String := words.takeWhile isLeading

/-- What follows the flags that lead a line. -/
def following (words : List String) : List String := words.dropWhile isLeading

@[simp] theorem leading_append_following (words : List String) :
    leading words ++ following words = words := List.takeWhile_append_dropWhile

/-- What the flags that lead a line give. -/
def led (words : List String) : Given :=
  Given.raisedBy (Flag.verbose.times (leading words)) (Flag.quiet.times (leading words)) {}

theorem scanTop_cases (words : List String) :
    ((∀ rest, scanTop {} (leading words ++ rest) = scanTop (led words) rest) ∧
      (leading words).foldlM CommandName.lsp.grammar.take {} = .ok (led words)) ∨
    ∃ e, (e = .help ∨ e = .version) ∧ ∀ rest, scanTop {} (leading words ++ rest) = .error e := by
  have hleading : ∀ word ∈ leading words, isLeading word = true := fun word hword =>
    List.mem_takeWhile_imp hword
  have h := scanTop_leading hleading 0 0
  rwa [Nat.zero_add, Nat.zero_add] at h

theorem RefusedAtTop.scan_leading (h : RefusedAtTop words) :
    (∀ rest, scanTop {} (leading words ++ rest) = scanTop (led words) rest) ∧
      (leading words).foldlM CommandName.lsp.grammar.take {} = .ok (led words) := by
  refine (scanTop_cases words).resolve_right ?_
  rintro ⟨e, he, hscan⟩
  have hwords := hscan (following words)
  rw [leading_append_following] at hwords
  cases h with
  | noCommand hend => exact nomatch hend.symm.trans hwords
  | unknownArgument hend =>
    cases hend.symm.trans hwords
    simp at he

/-- A line that is refused at its top is read again, with the server named. -/
theorem RefusedAtTop.read_eq (h : RefusedAtTop words) :
    (∃ e, readStrict environment words = .error e) ∧
      read environment words = readStrict environment (withServer words) := by
  cases h with
  | noCommand hscan =>
    have hstrict : readStrict environment words = .error .noCommand := by rw [readStrict_eq, hscan]
    exact ⟨⟨_, hstrict⟩, by rw [read, hstrict]; rfl⟩
  | @unknownArgument word hscan =>
    have hstrict : readStrict environment words = .error (.unknownArgument word) := by
      rw [readStrict_eq, hscan]
    refine ⟨⟨_, hstrict⟩, ?_⟩
    rw [read, hstrict]
    cases hmay : mayLackCommand (.unknownArgument word) words with
    | true => simp only [hmay, if_true]
    | false =>
      -- leading flags alone are all known
      have hall : leading words = words :=
        List.takeWhile_eq_self_iff.mpr (by simpa [mayLackCommand] using hmay)
      have hend := (RefusedAtTop.unknownArgument hscan).scan_leading.1 []
      rw [hall, List.append_nil] at hend
      exact nomatch hscan.symm.trans hend

/-- The server is named after the flags that lead, and takes what follows them. -/
theorem readStrict_withServer
    (hled : ∀ rest, scanTop {} (leading words ++ rest) = scanTop (led words) rest) :
    readStrict environment (withServer words) = do
      let inner ← readCommand environment .lsp (following words)
      return invocation (← (led words).checked) .lsp inner := by
  rw [readStrict_eq, withServer]
  have hscan : scanTop {} (leading words ++ CommandName.lsp.name :: following words) =
      .ok (led words, some (.lsp, following words)) := (hled _).trans rfl
  rw [leading, following] at hscan
  rw [hscan]
  rfl

/-- The server's line is read from its words alone. -/
theorem readStrict_server (words : List String) :
    readStrict environment (CommandName.lsp.name :: words) =
      readCommand environment .lsp words >>= fun inner => .ok (invocation {} .lsp inner) := by
  rw [readStrict_eq]
  have hscan : scanTop {} (CommandName.lsp.name :: words) = .ok ({}, some (.lsp, words)) := rfl
  simp only [hscan]
  cases readCommand environment .lsp words <;> rfl

end MemoHints.CommandLine
