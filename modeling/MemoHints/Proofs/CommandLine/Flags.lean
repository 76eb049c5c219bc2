import MemoHints.CommandLine.Reader
import MemoHints.Proofs.Results

/-!
# Flags that are counted

The louder and the quieter flags count how often they come, by their names and by the letters of
clusters.  What was counted before a word changes the counts after it and nothing else
(`Grammar.take_raisedBy`), and on the server's level the counts are those of the words
(`Given.Counts.foldlM_take`).
-/

namespace MemoHints.CommandLine

/-- How often a flag is in a word: once by its name, and once by each of its letters in a
cluster. -/
def Flag.countIn (flag : Flag) (word : String) : Nat :=
  match word.toList with
  | '-' :: '-' :: cs => if String.ofList cs = flag.name then 1 else 0
  | '-' :: cs => cs.countP (fun c => flag.letter? = some c)
  | _ => 0

/-- A word without an equals sign is all name. -/
theorem ofList_of_splitEquals {cs : List Char} {name : String}
    (h : Grammar.splitEquals cs = (name, none)) : String.ofList cs = name := by
  unfold Grammar.splitEquals at h
  split at h
  · exact congrArg Prod.fst h
  · exact absurd (congrArg Prod.snd h) nofun

theorem ofList_eq_name_iff (flag : Flag) (cs : List Char) :
    String.ofList cs = flag.name ↔ Grammar.splitEquals cs = (flag.name, none) := by
  refine ⟨fun h => ?_, ofList_of_splitEquals⟩
  obtain rfl : cs = flag.name.toList := by rw [← h, String.toList_ofList]
  cases flag <;> rfl

theorem Flag.countIn_long {flag : Flag} {word : String} {cs : List Char}
    (hword : word.toList = '-' :: '-' :: cs) :
    flag.countIn word = if Grammar.splitEquals cs = (flag.name, none) then 1 else 0 := by
  simp only [countIn, hword, ofList_eq_name_iff]

theorem Flag.countIn_cluster {flag : Flag} {word : String} {c : Char} {cs : List Char}
    (hc : c ≠ '-') (hword : word.toList = '-' :: c :: cs) :
    flag.countIn word = (c :: cs).countP (fun c => flag.letter? = some c) := by
  unfold countIn
  split
  next hlong =>
    rw [hword] at hlong
    simp [hc] at hlong
  next cs' _ hcluster =>
    obtain rfl : c :: cs = cs' := List.tail_eq_of_cons_eq (hword.symm.trans hcluster)
    rfl
  next hplain => exact absurd hword (hplain _)

theorem Flag.countIn_plain {flag : Flag} {word : String}
    (hword : ∀ c cs, word.toList = '-' :: c :: cs → False) : flag.countIn word = 0 := by
  unfold countIn
  split
  next hlong => exact (hword _ _ hlong).elim
  next cs _ hcluster =>
    cases cs with
    | nil => rfl
    | cons c cs => exact (hword _ _ hcluster).elim
  next => rfl

/-- How often a flag is in words. -/
def Flag.times (flag : Flag) (words : List String) : Nat := (words.map flag.countIn).sum

@[simp] theorem Flag.times_cons (flag : Flag) (word : String) (words : List String) :
    flag.times (word :: words) = flag.countIn word + flag.times words := by
  simp [Flag.times]

/-! ## Flags that were counted before -/

/-- What was given, with more of the flags that are counted. -/
def Given.raisedBy (louder quieter : Nat) (given : Given) : Given :=
  { given with
    verbose := min (given.verbose + louder) maxCount
    quiet := min (given.quiet + quieter) maxCount }

section RaisedBy

variable {louder quieter : Nat} {given : Given} {grammar : Grammar}

namespace Given

theorem raisedBy_raisedBy (louder' quieter' : Nat) :
    (given.raisedBy louder quieter).raisedBy louder' quieter' =
      given.raisedBy (louder + louder') (quieter + quieter') := by
  simp only [raisedBy, Given.mk.injEq, and_true]
  omega

@[simp] theorem pending_raisedBy : (given.raisedBy louder quieter).pending = given.pending := rfl

@[simp] theorem onlyWords_raisedBy :
    (given.raisedBy louder quieter).onlyWords = given.onlyWords := rfl

@[simp] theorem hasRoot_raisedBy : (given.raisedBy louder quieter).hasRoot = given.hasRoot := rfl

@[simp] theorem stdio_raisedBy : (given.raisedBy louder quieter).stdio = given.stdio := rfl

@[simp] theorem has_raisedBy (setting : Setting) :
    (given.raisedBy louder quieter).has setting = given.has setting := rfl

theorem add_raisedBy (setting : Setting) (value : String) :
    (given.raisedBy louder quieter).add setting value =
      (given.add setting value).map (raisedBy louder quieter) := by
  unfold add
  rw [has_raisedBy]
  split
  · rfl
  · cases setting.fault? value <;> rfl

theorem settle_raisedBy :
    (given.raisedBy louder quieter).settle = given.settle.map (raisedBy louder quieter) := by
  unfold settle
  rw [pending_raisedBy]
  split
  · rfl
  · rfl
  · have hclear : { given.raisedBy louder quieter with pending := none } =
        { given with pending := none }.raisedBy louder quieter := rfl
    rw [hclear]
    exact add_raisedBy _ _

theorem raise_raisedBy (flag : Flag) :
    (given.raisedBy louder quieter).raise flag =
      (given.raise flag).map (raisedBy louder quieter) := by
  unfold raise
  rw [settle_raisedBy]
  cases given.settle with
  | error e => rfl
  | ok settled =>
    cases flag with
    | help | version => rfl
    | verbose | quiet =>
      simp only [Except.map, bind, Except.bind, pure, Except.pure, raisedBy, Except.ok.injEq,
        Given.mk.injEq, and_true, true_and]
      omega
    | stdio =>
      by_cases hstdio : settled.stdio = true
      · simp [Except.map, bind, Except.bind, hstdio]
      · simp [Except.map, bind, Except.bind, hstdio, pure, Except.pure, raisedBy]

end Given

namespace Grammar

theorem plainWord_raisedBy (word : String) :
    grammar.plainWord (given.raisedBy louder quieter) word =
      (grammar.plainWord given word).map (Given.raisedBy louder quieter) := by
  unfold plainWord
  rw [Given.hasRoot_raisedBy, Given.settle_raisedBy]
  split
  · cases given.settle <;> rfl
  · rfl

theorem longOption_raisedBy (name : String) (value : Option String) :
    grammar.longOption (given.raisedBy louder quieter) name value =
      (grammar.longOption given name value).map (Given.raisedBy louder quieter) := by
  unfold longOption
  rw [Given.settle_raisedBy]
  split
  · exact Given.raise_raisedBy _
  · rfl
  · cases given.settle <;> rfl
  · cases given.settle with
    | error e => rfl
    | ok settled => exact Given.add_raisedBy _ _
  · rfl

theorem letter_raisedBy (c : Char) :
    grammar.letter (given.raisedBy louder quieter) c =
      (grammar.letter given c).map (Given.raisedBy louder quieter) := by
  unfold letter
  split
  · exact Given.raise_raisedBy _
  · rfl

/-- Taking a word leaves alone what was counted before. -/
theorem take_raisedBy (word : String) :
    grammar.take (given.raisedBy louder quieter) word =
      (grammar.take given word).map (Given.raisedBy louder quieter) := by
  unfold take
  rw [Given.onlyWords_raisedBy]
  split
  · exact plainWord_raisedBy word
  · split
    · rfl
    · exact longOption_raisedBy _ _
    · exact foldlM_map (fun _ _ => letter_raisedBy _) _ _
    · rw [Given.pending_raisedBy]
      split
      · rfl
      · exact plainWord_raisedBy word

theorem foldlM_take_raisedBy (words : List String) :
    words.foldlM grammar.take (given.raisedBy louder quieter) =
      (words.foldlM grammar.take given).map (Given.raisedBy louder quieter) :=
  foldlM_map (fun _ _ => take_raisedBy _) _ _

end Grammar

end RaisedBy

/-! ## Counts on the server's level -/

/-- The flags have been counted so often, as far as they are counted. -/
structure Given.Counts (louder quieter : Nat) (given : Given) : Prop where
  verbose : given.verbose = min louder maxCount
  quiet : given.quiet = min quieter maxCount

section Counts

variable {louder quieter : Nat} {given given' : Given}

namespace Given

theorem Counts.raisedBy (h : given.Counts louder quieter) (louder' quieter' : Nat) :
    (given.raisedBy louder' quieter').Counts (louder' + louder) (quieter' + quieter) := by
  constructor
  · simp only [Given.raisedBy, h.verbose]
    omega
  · simp only [Given.raisedBy, h.quiet]
    omega

/-- Louder and quieter flags exclude each other. -/
theorem Counts.checked_bind (h : given.Counts louder quieter) {α : Type}
    (next : Given → Except UsageError α) :
    given.checked >>= next =
      if 0 < louder ∧ 0 < quieter then .error (.conflict Flag.quiet.name) else next given := by
  have hcounted : ∀ n, 0 < min n maxCount ↔ 0 < n := fun n => by
    unfold maxCount
    omega
  simp only [Given.checked, h.verbose, h.quiet, hcounted]
  split <;> rfl

theorem Counts.add (h : given.Counts louder quieter) {setting : Setting} {value : String}
    (hadd : given.add setting value = .ok given') : given'.Counts louder quieter := by
  unfold Given.add at hadd
  split at hadd
  · cases hadd
  · split at hadd
    · cases hadd
    · cases hadd
      exact ⟨h.verbose, h.quiet⟩

theorem Counts.settle (h : given.Counts louder quieter) (hsettle : given.settle = .ok given') :
    given'.Counts louder quieter := by
  unfold Given.settle at hsettle
  split at hsettle
  · cases hsettle
    exact h
  · cases hsettle
  · have hclear : { given with pending := none }.Counts louder quieter := ⟨h.verbose, h.quiet⟩
    exact hclear.add hsettle

theorem Counts.raise (h : given.Counts louder quieter) {flag : Flag}
    (hraise : given.raise flag = .ok given') :
    given'.Counts (louder + if flag = .verbose then 1 else 0)
      (quieter + if flag = .quiet then 1 else 0) := by
  obtain ⟨settled, hsettle, hraise⟩ := bind_eq_ok.mp hraise
  have hsettled := h.settle hsettle
  obtain ⟨hverbose, hquiet⟩ := hsettled
  cases flag with
  | help | version => cases hraise
  | verbose | quiet =>
    cases hraise
    constructor <;> simp only [hverbose, hquiet, if_true, if_false, reduceCtorEq] <;> omega
  | stdio =>
    simp only at hraise
    split at hraise
    · cases hraise
    · cases hraise
      exact ⟨hverbose, hquiet⟩

end Given

namespace Given

variable {grammar : Grammar}

theorem Counts.letter (h : given.Counts louder quieter) {c : Char}
    (hletter : grammar.letter given c = .ok given') :
    given'.Counts (louder + if Flag.verbose.letter? = some c then 1 else 0)
      (quieter + if Flag.quiet.letter? = some c then 1 else 0) := by
  unfold Grammar.letter at hletter
  split at hletter
  next flag hflag =>
    have hc : flag.letter? = some c := by simpa using List.find?_some hflag
    have hraise := h.raise hletter
    cases flag with
    | stdio => cases hc
    | verbose | quiet | help | version =>
      cases hc
      exact hraise
  next => cases hletter

theorem Counts.letters (h : given.Counts louder quieter) {cs : List Char}
    (hletters : cs.foldlM grammar.letter given = .ok given') :
    given'.Counts (louder + cs.countP (fun c => Flag.verbose.letter? = some c))
      (quieter + cs.countP (fun c => Flag.quiet.letter? = some c)) := by
  induction cs generalizing given louder quieter with
  | nil =>
    cases hletters
    exact h
  | cons c cs ih =>
    obtain ⟨next, hletter, hletters⟩ := bind_eq_ok.mp hletters
    have hrest := ih (h.letter hletter) hletters
    simpa [List.countP_cons, Nat.add_assoc, Nat.add_comm, Nat.add_left_comm] using hrest

theorem Counts.longOption (h : given.Counts louder quieter) {name : String} {value : Option String}
    (hoption : grammar.longOption given name value = .ok given') :
    given'.Counts (louder + if (name, value) = (Flag.verbose.name, none) then 1 else 0)
      (quieter + if (name, value) = (Flag.quiet.name, none) then 1 else 0) := by
  unfold Grammar.longOption at hoption
  split at hoption
  next flag hflag =>
    obtain rfl : flag.name = name := by simpa using List.find?_some hflag
    have hraise := h.raise hoption
    cases flag <;> exact hraise
  next => cases hoption
  next setting _ hsetting =>
    -- no setting has the name of a flag
    obtain rfl : setting.name = name := by simpa using List.find?_some hsetting
    obtain ⟨settled, hsettle, hoption⟩ := bind_eq_ok.mp hoption
    cases hoption
    obtain ⟨hverbose, hquiet⟩ := h.settle hsettle
    cases setting <;> exact ⟨hverbose, hquiet⟩
  next =>
    obtain ⟨settled, hsettle, hoption⟩ := bind_eq_ok.mp hoption
    simpa using (h.settle hsettle).add hoption
  next => cases hoption

/-- A word counts the flags that are in it. -/
theorem Counts.take (h : given.Counts louder quieter) (hroot : grammar.takesRoot = false)
    {word : String} (htake : grammar.take given word = .ok given') :
    given'.Counts (louder + Flag.verbose.countIn word) (quieter + Flag.quiet.countIn word) := by
  have hplain : grammar.plainWord given word ≠ .ok given' := by simp [Grammar.plainWord, hroot]
  unfold Grammar.take at htake
  split at htake
  · exact absurd htake hplain
  · split at htake
    next hword =>
      cases htake
      rw [Flag.countIn_long hword, Flag.countIn_long hword]
      exact ⟨h.verbose, h.quiet⟩
    next cs _ hword =>
      rw [Flag.countIn_long hword, Flag.countIn_long hword]
      exact h.longOption htake
    next c cs _ hlong hword =>
      rw [Flag.countIn_cluster hlong hword, Flag.countIn_cluster hlong hword]
      exact h.letters htake
    next _ _ hword =>
      rw [Flag.countIn_plain hword, Flag.countIn_plain hword]
      split at htake
      · cases htake
        exact ⟨h.verbose, h.quiet⟩
      · exact absurd htake hplain

theorem Counts.foldlM_take (h : given.Counts louder quieter) (hroot : grammar.takesRoot = false)
    {words : List String} (hwords : words.foldlM grammar.take given = .ok given') :
    given'.Counts (louder + Flag.verbose.times words) (quieter + Flag.quiet.times words) := by
  induction words generalizing given louder quieter with
  | nil =>
    cases hwords
    exact h
  | cons word words ih =>
    obtain ⟨next, htake, hwords⟩ := bind_eq_ok.mp hwords
    simpa only [Flag.times_cons, Nat.add_assoc] using ih (h.take hroot htake) hwords

end Given

end Counts

end MemoHints.CommandLine
