import MemoHints.Proofs.CommandLine.Top

/-!
# What the server takes

The words behind `lsp` are options, their values and flags.  Leading flags raise the counts of what
follows them, and the name of a command is taken as the value of an option only.
-/

namespace MemoHints.CommandLine

variable {environment : List (String × String)} {words : List String}

/-! ## A command among the server's words -/

namespace Given

variable {given given' : Given}

/-- The next word is no value of an option. -/
def AwaitsNoValue (given : Given) : Prop :=
  given.onlyWords = true ∨ ∀ setting, given.pending ≠ some (setting, none)

theorem pending_of_add {setting : Setting} {value : String}
    (h : given.add setting value = .ok given') : given'.pending = given.pending := by
  unfold add at h
  split at h
  · cases h
  · split at h
    · cases h
    · cases h
      rfl

theorem pending_of_settle (h : given.settle = .ok given') : given'.pending = none := by
  unfold settle at h
  split at h
  next hpending =>
    cases h
    exact hpending
  next => cases h
  next => exact pending_of_add h

theorem pending_of_raise {flag : Flag} (h : given.raise flag = .ok given') :
    given'.pending = none := by
  obtain ⟨settled, hsettle, h⟩ := bind_eq_ok.mp h
  have hsettled := pending_of_settle hsettle
  cases flag with
  | help | version => cases h
  | verbose | quiet =>
    cases h
    exact hsettled
  | stdio =>
    simp only at h
    split at h
    · cases h
    · cases h
      exact hsettled

end Given

namespace Grammar

variable {grammar : Grammar} {given given' : Given}

theorem pending_of_letters {cs : List Char} (hcs : cs ≠ [])
    (h : cs.foldlM grammar.letter given = .ok given') : given'.pending = none := by
  rw [← List.dropLast_concat_getLast hcs, List.foldlM_append] at h
  obtain ⟨front, -, h⟩ := bind_eq_ok.mp h
  obtain ⟨last, hletter, h⟩ := bind_eq_ok.mp h
  cases h
  unfold letter at hletter
  split at hletter
  · exact Given.pending_of_raise hletter
  · cases hletter

/-- Only the name of a setting, without a value, leaves the option to wait for one. -/
theorem awaitsNoValue_of_longOption {name : String} {value : Option String}
    (hname : ∀ setting ∈ grammar.settings, (name, value) ≠ (setting.name, none))
    (h : grammar.longOption given name value = .ok given') : given'.AwaitsNoValue := by
  unfold longOption at h
  split at h
  · exact .inr fun _ => by simp [Given.pending_of_raise h]
  · cases h
  next setting _ hsetting =>
    obtain rfl : setting.name = name := by simpa using List.find?_some hsetting
    exact absurd rfl (hname setting (List.mem_of_find?_eq_some hsetting))
  · obtain ⟨settled, hsettle, h⟩ := bind_eq_ok.mp h
    exact .inr fun _ => by simp [Given.pending_of_add h, Given.pending_of_settle hsettle]
  · cases h

theorem awaitsNoValue_of_take {word : String}
    (hword : ∀ setting ∈ grammar.settings, word ≠ "--" ++ setting.name)
    (hroot : grammar.takesRoot = false) (h : grammar.take given word = .ok given') :
    given'.AwaitsNoValue := by
  have hplain : ∀ g, grammar.plainWord g word ≠ .ok given' := by simp [plainWord, hroot]
  unfold take at h
  split at h
  · exact absurd h (hplain _)
  · split at h
    · cases h
      exact .inl rfl
    next cs _ hcs =>
      refine awaitsNoValue_of_longOption (fun setting hsetting heq => ?_) h
      refine hword setting hsetting (String.toList_injective ?_)
      simp [hcs, ← ofList_of_splitEquals heq]
    next c cs _ _ _ =>
      exact .inr fun _ => by simp [pending_of_letters (List.cons_ne_nil c cs) h]
    · split at h
      · cases h
        exact .inr fun _ => by simp
      · exact absurd h (hplain _)

/-- The server has no use for the name of a command, unless it is the value of an option. -/
theorem take_name_ne_ok (hroot : grammar.takesRoot = false) (h : given.AwaitsNoValue)
    (command : CommandName) : grammar.take given command.name ≠ .ok given' := by
  have hplain : grammar.plainWord given command.name ≠ .ok given' := by simp [plainWord, hroot]
  have hfree : ∀ cs, command.name.toList ≠ '-' :: cs := by
    cases command <;> simp [CommandName.name]
  unfold take
  split
  · exact hplain
  next honly =>
    split
    next heq => exact absurd heq (hfree _)
    next heq => exact absurd heq (hfree _)
    next heq => exact absurd heq (hfree _)
    next =>
      split
      next setting hsetting => exact absurd hsetting (h.resolve_left honly setting)
      next => exact hplain

end Grammar

/-! ## The server's options -/

/-- Reads what follows a command.  Flags that exclude each other are let pass. -/
def readOptions (environment : List (String × String)) (command : CommandName)
    (words : List String) : Except UsageError Given := do
  let given ← words.foldlM command.grammar.take {}
  let given ← given.settle
  match environment.lookup bundledVariable with
  | some value => if given.has .bundledPlugin then .ok given else given.add .bundledPlugin value
  | none => .ok given

theorem readCommand_eq (command : CommandName) (words : List String) :
    readCommand environment command words =
      readOptions environment command words >>= Given.checked := by
  unfold readCommand readOptions
  simp only [bind_assoc]
  refine bind_congr fun given => bind_congr fun settled => ?_
  cases environment.lookup bundledVariable with
  | none => rfl
  | some value => by_cases hhas : settled.has .bundledPlugin = true <;> simp [hhas]

/-- Leading flags raise what the words after them give. -/
theorem readOptions_of_leading
    (hleading : (leading words).foldlM CommandName.lsp.grammar.take {} = .ok (led words)) :
    readOptions environment .lsp words =
      (readOptions environment .lsp (following words)).map
        (Given.raisedBy (Flag.verbose.times (leading words))
          (Flag.quiet.times (leading words))) := by
  have hwords : words.foldlM CommandName.lsp.grammar.take {} =
      ((following words).foldlM CommandName.lsp.grammar.take {}).map
        (Given.raisedBy (Flag.verbose.times (leading words))
          (Flag.quiet.times (leading words))) := by
    conv => lhs; rw [← leading_append_following words, List.foldlM_append, hleading]
    exact Grammar.foldlM_take_raisedBy _
  unfold readOptions
  rw [hwords]
  cases (following words).foldlM CommandName.lsp.grammar.take {} with
  | error e => rfl
  | ok given =>
    simp only [Except.map, bind, Except.bind, Given.settle_raisedBy]
    cases given.settle with
    | error e => rfl
    | ok settled =>
      simp only [Given.has_raisedBy, Given.add_raisedBy]
      split
      · split <;> rfl
      · rfl

theorem readOptions_counts {inner : Given} (h : readOptions environment .lsp words = .ok inner) :
    inner.Counts (Flag.verbose.times words) (Flag.quiet.times words) := by
  obtain ⟨given, hwords, h⟩ := bind_eq_ok.mp h
  obtain ⟨settled, hsettle, h⟩ := bind_eq_ok.mp h
  have hstart : Given.Counts 0 0 {} := ⟨rfl, rfl⟩
  have hgiven := (hstart.foldlM_take rfl hwords).settle hsettle
  rw [Nat.zero_add, Nat.zero_add] at hgiven
  split at h
  · split at h
    · cases h
      exact hgiven
    · exact hgiven.add h
  · cases h
    exact hgiven

/-! ## Lines that name a command -/

/-- A line names a command, by a word that does not stand where an option has its value. -/
def NamesCommand (words : List String) : Prop :=
  ∃ front command rest, words = front ++ CommandName.name command :: rest ∧
    ∀ setting ∈ CommandName.lsp.grammar.settings, front.getLast? ≠ some ("--" ++ setting.name)

/-- The server has no use for the name of a command. -/
theorem NamesCommand.readOptions_ne_ok (h : NamesCommand words) (inner : Given) :
    readOptions environment .lsp words ≠ .ok inner := by
  obtain ⟨front, command, rest, rfl, hfront⟩ := h
  intro hread
  obtain ⟨given, hwords, -⟩ := bind_eq_ok.mp hread
  rw [List.foldlM_append] at hwords
  obtain ⟨before, hbefore, hwords⟩ := bind_eq_ok.mp hwords
  obtain ⟨after, hname, -⟩ := bind_eq_ok.mp hwords
  refine Grammar.take_name_ne_ok rfl ?_ command hname
  obtain rfl | ⟨init, last, rfl⟩ := front.eq_nil_or_concat
  · cases hbefore
    exact .inr fun _ => nofun
  · rw [List.concat_eq_append, List.foldlM_append] at hbefore
    obtain ⟨start, -, hlast⟩ := bind_eq_ok.mp hbefore
    obtain ⟨next, hlast, hend⟩ := bind_eq_ok.mp hlast
    cases hend
    refine Grammar.awaitsNoValue_of_take (fun setting hsetting heq => ?_) rfl hlast
    exact hfront setting hsetting (by simp [heq])

theorem NamesCommand.after_leading (h : NamesCommand words) : NamesCommand (following words) := by
  obtain ⟨front, command, rest, rfl, hfront⟩ := h
  have hname : isLeading command.name = false := by cases command <;> decide
  induction front with
  | nil =>
    refine ⟨[], command, rest, ?_, by simp⟩
    rw [List.nil_append, following, List.dropWhile_cons_of_neg (by simp [hname])]
  | cons word front ih =>
    rw [List.cons_append, following, List.dropWhile_cons]
    split
    · refine ih fun setting hsetting hlast => hfront setting hsetting ?_
      rw [List.getLast?_cons, hlast]
      rfl
    · exact ⟨word :: front, command, rest, rfl, hfront⟩

theorem take_setting_ne_ok {setting : Setting}
    (hsetting : setting ∈ CommandName.lsp.grammar.settings) {given given' : Given} :
    topGrammar.take given ("--" ++ setting.name) ≠ .ok given' := by
  have hplain : ∀ word, topGrammar.plainWord given word ≠ .ok given' := by
    simp [Grammar.plainWord, topGrammar]
  simp only [CommandName.grammar, List.mem_cons, List.not_mem_nil, or_false] at hsetting
  unfold Grammar.take
  split
  · exact hplain _
  · obtain rfl | rfl := hsetting
    all_goals
      intro h
      cases h

/-- A command that is found behind the flags of a line is named by it. -/
theorem namesCommand_of_scanTop {given outer : Given} {command : CommandName} {rest : List String}
    (h : scanTop given words = .ok (outer, some (command, rest))) : NamesCommand words := by
  suffices hfront : ∃ front, words = front ++ command.name :: rest ∧
      ∀ setting ∈ CommandName.lsp.grammar.settings, front.getLast? ≠ some ("--" ++ setting.name) by
    obtain ⟨front, hwords, hfront⟩ := hfront
    exact ⟨front, command, rest, hwords, hfront⟩
  induction words generalizing given with
  | nil => cases h
  | cons word words ih =>
    unfold scanTop at h
    split at h
    · cases h
    · split at h
      next found hfound =>
        cases h
        refine ⟨[], ?_, by simp⟩
        split at hfound
        · cases hfound
        · unfold CommandName.ofName? at hfound
          split at hfound <;> cases hfound <;> rfl
      next =>
        obtain ⟨next, htake, h⟩ := bind_eq_ok.mp h
        obtain ⟨front, hwords, hfront⟩ := ih h
        refine ⟨word :: front, by rw [hwords]; rfl, fun setting hsetting hlast => ?_⟩
        cases front with
        | cons other front => exact hfront setting hsetting (by simpa using hlast)
        | nil =>
          -- no option of the server's is known at the top
          obtain rfl : word = "--" ++ setting.name := by simpa using hlast
          exact take_setting_ne_ok hsetting htake

end MemoHints.CommandLine
