import AnonCred.Program
import AnonCred.Proofs.Config.Layers
import AnonCred.Proofs.Config.Variable

/-!
# Two readings of a mode

On the command line a mode is named in letters of either case, between blanks. In settings its name
stands for itself only. A variable that names a mode is read both ways in one run, so a text that
only the command line takes ends the run.

* `Names` — what the command line takes
* `parse_eq_ok`, `layeredMode_string` — the two readings
* `readings_agree_iff` — where they agree, and what a run makes of the rest
-/

namespace AnonCred

open Text

variable {mode : ChallengeMode} {text : String}

namespace ChallengeMode

/-! ## On the command line -/

/-- The letters of a mode's name, of either case, between blanks. -/
def Names (text : String) (mode : ChallengeMode) : Prop :=
  ∃ before core behind, Blanks before ∧ Blanks behind ∧
    text.toList = before ++ core ++ behind ∧ core.map lowerChar = mode.name.toList

theorem trimmed_name (mode : ChallengeMode) : Trimmed mode.name.toList := by
  cases mode <;> decide

theorem parse_eq_ok : parse text = .ok mode ↔ lower (trim text) = mode.name := by
  rw [← ofName?_eq_some]
  unfold parse
  dsimp only
  cases ofName? (lower (trim text)) with
  | none => simp
  | some other => simp

theorem lower_trim_eq_name_iff : lower (trim text) = mode.name ↔ Names text mode := by
  rw [← String.toList_inj, toList_lower_trim]
  refine trimmed_lower_iff (· = mode.name.toList) (fun word hword => ?_) text.toList
  rw [hword]
  exact mode.trimmed_name

theorem names_name (mode : ChallengeMode) : Names mode.name mode := by
  rw [← lower_trim_eq_name_iff]
  cases mode <;> rfl

/-- Without the blanks a text is no name of a mode, unless it is the name of the one it names. -/
theorem Names.ofName?_trim (h : Names text mode) (hname : trim text ≠ mode.name) :
    ofName? (trim text) = none := by
  by_contra hsome
  obtain ⟨other, hother⟩ := Option.ne_none_iff_exists'.mp hsome
  have heq := ofName?_eq_some.mp hother
  have hlower : lower other.name = other.name := by cases other <;> rfl
  have hfolded := lower_trim_eq_name_iff.mpr h
  rw [heq, hlower] at hfolded
  exact hname (heq.trans hfolded)

/-- The letters of a name, of either case, are a plain word. -/
theorem plain_of_map_lowerChar {core : List Char} (h : core.map lowerChar = mode.name.toList) :
    Variable.Plain core := by
  have hletters : ∀ c ∈ mode.name.toList, c.isAlpha = true :=
    List.all_eq_true.mp (by cases mode <;> decide)
  have hhead (c : Char) (hc : mode.name.toList.head? ≠ some (lowerChar c)) :
      core.head? ≠ some c := by
    intro heq
    rw [← h, List.head?_map, heq] at hc
    exact hc rfl
  refine ⟨?_, fun c hc => ?_, hhead 't' ?_, hhead 'f' ?_⟩
  · rintro rfl
    cases mode <;> cases h
  · refine isAlpha_of_lowerChar (hletters _ ?_)
    rw [← h]
    exact List.mem_map_of_mem hc
  · cases mode <;> decide
  · cases mode <;> decide

end ChallengeMode

/-! ## In settings -/

theorem Decode.layeredMode_string : layeredMode (.string text) = .ok mode ↔ text = mode.name := by
  rw [← ChallengeMode.ofName?_eq_some, layeredMode, namedMode]
  cases ChallengeMode.ofName? text with
  | none => simp
  | some other => simp

/-- What is read from a variable that the command line takes for a mode. -/
theorem ChallengeMode.Names.value_eq (h : Names text mode) :
    Variable.value text = .ok (.string (trim text)) := by
  obtain ⟨before, core, behind, hbefore, hbehind, htext, hname⟩ := h
  have hplain := plain_of_map_lowerChar hname
  rw [Variable.value_eq_string hbefore hbehind hplain htext, trim, htext,
    trimChars_append hbefore hbehind hplain.trimmed]

namespace Config

/-- Settings with a mode, or an error somewhere else. -/
def ReadsMode (mode : ChallengeMode) : Except DecodeError Config → Prop
  | .ok config => config.challengeMode = mode
  | .error error => error.path.head? ≠ some "challenge_mode"

variable {key : String} {entries : Value.Entries}

theorem readsMode_bind {α : Type} {part : Except DecodeError α}
    {next : α → Except DecodeError Config}
    (hpart : ∀ error, part = .error error → error.path.head? ≠ some "challenge_mode")
    (hnext : ∀ a, part = .ok a → ReadsMode mode (next a)) : ReadsMode mode (part >>= next) := by
  cases part with
  | error error => exact hpart error rfl
  | ok a => exact hnext a rfl

/-- A wrong entry is found under its key. -/
theorem head?_path_of_field? {α : Type} {decode : Decode α} {error : DecodeError}
    (h : Decode.field? decode key entries = .error error) : error.path.head? = some key := by
  unfold Decode.field? at h
  split at h
  · next kept _ =>
    cases hread : decode kept with
    | ok a =>
      rw [hread] at h
      cases h
    | error inner =>
      rw [hread] at h
      cases h
      rfl
  · cases h

theorem path_of_required {α : Type} {entry : Option α} {error : DecodeError}
    (h : Decode.required key entry = .error error) : error.path = [] := by
  cases entry with
  | some a => cases h
  | none =>
    cases h
    rfl

theorem readsMode_ofTable
    (h : Decode.field? Decode.layeredMode "challenge_mode" entries = .ok (some mode)) :
    ReadsMode mode (Decode.ofTable Decode.layeredMode entries) := by
  have hfield {α : Type} (decode : Decode α) (key : String) (hkey : key ≠ "challenge_mode")
      (error : DecodeError) (herror : Decode.field? decode key entries = .error error) :
      error.path.head? ≠ some "challenge_mode" := by
    rw [head?_path_of_field? herror]
    exact fun heq => hkey (Option.some.inj heq)
  have hrequired {α : Type} (key : String) (entry : Option α) (error : DecodeError)
      (herror : Decode.required key entry = .error error) :
      error.path.head? ≠ some "challenge_mode" := by
    rw [path_of_required herror]
    exact nofun
  -- field by field in the order of the keys, then what is missing in the order of the settings
  unfold Decode.ofTable
  refine readsMode_bind (by rw [h]; exact nofun) fun challengeMode hmode => ?_
  refine readsMode_bind (hfield _ "group" (by decide)) fun group _ => ?_
  refine readsMode_bind (hfield _ "organizations" (by decide)) fun organizations _ => ?_
  refine readsMode_bind (hfield _ "registration_keys" (by decide)) fun registrationKeys _ => ?_
  refine readsMode_bind (hfield _ "session_key_bytes" (by decide)) fun sessionKeyBytes _ => ?_
  refine readsMode_bind (hrequired "group" group) fun _ _ => ?_
  refine readsMode_bind (hrequired "challenge_mode" challengeMode) fun found hfound => ?_
  refine readsMode_bind (hrequired "session_key_bytes" sessionKeyBytes) fun _ _ => ?_
  refine readsMode_bind (hrequired "organizations" organizations) fun _ _ => ?_
  refine readsMode_bind (hrequired "registration_keys" registrationKeys) fun _ _ => ?_
  rw [h] at hmode
  cases hmode
  cases hfound
  rfl

theorem ofTable_of_unknown
    (hentry : Value.Entries.find? "challenge_mode" entries = some (.string text))
    (h : ChallengeMode.ofName? text = none) :
    Decode.ofTable Decode.layeredMode entries = .error ⟨["challenge_mode"], .unknownName text⟩ := by
  have hmode : Decode.layeredMode (.string text) = .error (.here (.unknownName text)) := by
    rw [Decode.layeredMode, Decode.namedMode, h]
  rw [Decode.ofTable, Decode.field?, hentry]
  dsimp only
  rw [hmode]
  rfl

theorem ofTable_of_name
    (hentry : Value.Entries.find? "challenge_mode" entries = some (.string mode.name)) :
    ReadsMode mode (Decode.ofTable Decode.layeredMode entries) := by
  refine readsMode_ofTable ?_
  rw [Decode.field?, hentry]
  dsimp only
  rw [Decode.layeredMode_string.mpr rfl]
  rfl

/-- Settings with a mode, or an error that is not about the mode. -/
def TakesMode (mode : ChallengeMode) : Except LoadError Config → Prop
  | .ok config => config.challengeMode = mode
  | .error (.undecodable error) => error.path.head? ≠ some "challenge_mode"
  | .error _ => True

theorem takesMode_mapError {decoded : Except DecodeError Config} (h : ReadsMode mode decoded) :
    TakesMode mode (decoded.mapError .undecodable) := by
  cases decoded with
  | ok config => exact h
  | error error => exact h

variable {environment : List (String × String)}

/-- What the settings make of a variable that names a mode: it counts where it has the mode's name
exactly, apart from blanks. -/
theorem takesMode_or_error (hnames : ChallengeMode.Names text mode)
    (h : Environment.Sets environment "CHALLENGE_MODE" "challenge_mode" text)
    (file : Option String) :
    (trim text = mode.name → TakesMode mode (load file environment)) ∧
      (trim text ≠ mode.name → ∃ error, load file environment = .error error) := by
  rcases load_cases h (fun old => Value.overlay_string old _) hnames.value_eq file with
    ⟨interruption, hload⟩ | hload | ⟨entries, hentry, hload⟩
  · rw [hload]
    exact ⟨fun _ => trivial, fun _ => ⟨_, rfl⟩⟩
  · rw [hload]
    exact ⟨fun _ => trivial, fun _ => ⟨_, rfl⟩⟩
  · rw [hload]
    constructor
    · intro hname
      rw [hname] at hentry
      exact takesMode_mapError (ofTable_of_name hentry)
    · intro hname
      rw [ofTable_of_unknown hentry (hnames.ofName?_trim hname)]
      exact ⟨_, rfl⟩

end Config

namespace CommandLine

variable {environment : List (String × String)} {words : List String} {given : Arguments}

theorem fill_group_cases (environment : List (String × String)) (given : Arguments) :
    (∃ written, given.fill environment .group = .error (.badValue .group written)) ∨
      ∃ filled, given.fill environment .group = .ok filled ∧ filled.mode = given.mode := by
  unfold Arguments.fill
  split
  · next written _ =>
    split
    · exact .inr ⟨given, rfl, rfl⟩
    · unfold Arguments.set
      dsimp only
      split
      · exact .inr ⟨_, rfl, rfl⟩
      · exact .inl ⟨written, rfl⟩
  · exact .inr ⟨given, rfl, rfl⟩

theorem fill_mode (hlookup : environment.lookup "CHALLENGE_MODE" = some text)
    (hnone : given.mode = none) :
    given.fill environment .mode =
      match ChallengeMode.parse text with
      | .ok mode => .ok { given with mode := some mode }
      | .error _ => .error (.badValue .mode text) := by
  have hhas : ¬given.has .mode = true := by
    rw [Arguments.has, hnone]
    exact Bool.false_ne_true
  unfold Arguments.fill Arguments.standIn?
  simp only [Option.bind_some]
  rw [hlookup]
  dsimp only
  rw [if_neg hhas]
  unfold Arguments.set
  cases ChallengeMode.parse text with
  | error error => rfl
  | ok mode => rfl

theorem parse_eq (hwords : parseWords .empty words = .ok (.run given)) :
    parse words environment =
      (given.fill environment .group).bind fun filled =>
        Request.run <$> filled.fill environment .mode := by
  rw [parse, hwords]
  change ((given.fill environment .group).bind fun filled =>
    (filled.fill environment .mode).bind .ok).bind _ = _
  cases given.fill environment .group with
  | error error => rfl
  | ok filled =>
    change ((filled.fill environment .mode).bind .ok).bind _ =
      Request.run <$> filled.fill environment .mode
    cases filled.fill environment .mode with
    | error error => rfl
    | ok filled => rfl

/-- What a command line that gives no mode makes of the variable. A wrong group is found first. -/
theorem parse_cases (hlookup : environment.lookup "CHALLENGE_MODE" = some text)
    (hwords : parseWords .empty words = .ok (.run given)) (hnone : given.mode = none) :
    (∃ written, parse words environment = .error (.badValue .group written)) ∨
    (parse words environment = .error (.badValue .mode text) ∧
      ∀ mode, ChallengeMode.parse text ≠ .ok mode) ∨
    ∃ arguments mode, parse words environment = .ok (.run arguments) ∧
      arguments.mode = some mode ∧ ChallengeMode.parse text = .ok mode := by
  rw [parse_eq hwords]
  rcases fill_group_cases environment given with ⟨written, hgroup⟩ | ⟨filled, hgroup, hmode⟩
  · rw [hgroup]
    exact .inl ⟨written, rfl⟩
  · rw [hgroup]
    change _ ∨ (Request.run <$> filled.fill environment .mode = _ ∧ _) ∨
      ∃ arguments mode, Request.run <$> filled.fill environment .mode = _ ∧ _
    rw [fill_mode hlookup (hmode.trans hnone)]
    cases ChallengeMode.parse text with
    | error error => exact .inr (.inl ⟨rfl, nofun⟩)
    | ok mode => exact .inr (.inr ⟨_, mode, rfl, rfl, rfl⟩)

end CommandLine

namespace Program

theorem run_eq_throw {words : List String} {arguments : CommandLine.Arguments}
    {file : Option String} {environment : List (String × String)} {error : Config.LoadError}
    (hwords : CommandLine.parse words environment = .ok (.run arguments))
    (hload : Config.load file environment = .error error) :
    run words file environment = throw (.settings error) := by
  rw [run, hwords]
  dsimp only
  rw [prepare, hload]
  rfl

end Program

namespace ChallengeMode

/-- A text is read as a mode on the command line when it has the letters of its name, and in
settings when it is that name; so the two readings agree on a text unless it has a name's letters
but is not that name. In a run both read the variable. A command line without a mode is refused
unless the variable has a name's letters, and then takes that mode. The settings take it too where
only blanks stand around the name; otherwise whatever gets past the command line ends there. -/
theorem readings_agree_iff (text : String) :
    (∀ mode, parse text = .ok mode ↔ Names text mode) ∧
    (∀ mode, Decode.layeredMode (.string text) = .ok mode ↔ text = mode.name) ∧
    ((∀ mode, parse text = .ok mode ↔ Decode.layeredMode (.string text) = .ok mode) ↔
      ∀ mode, Names text mode → text = mode.name) ∧
    ∀ environment, Environment.Sets environment "CHALLENGE_MODE" "challenge_mode" text →
      (∀ words given, CommandLine.parseWords .empty words = .ok (.run given) →
        given.mode = none →
        (∃ written, CommandLine.parse words environment = .error (.badValue .group written)) ∨
        (CommandLine.parse words environment = .error (.badValue .mode text) ∧
          ∀ mode, ¬Names text mode) ∨
        ∃ arguments mode, CommandLine.parse words environment = .ok (.run arguments) ∧
          arguments.mode = some mode ∧ Names text mode) ∧
      ∀ mode file, Names text mode →
        (trim text = mode.name → Config.TakesMode mode (Config.load file environment)) ∧
        (trim text ≠ mode.name → ∀ words arguments,
          CommandLine.parse words environment = .ok (.run arguments) →
          ∃ error, Program.run words file environment = throw (.settings error)) := by
  have hline (mode : ChallengeMode) : parse text = .ok mode ↔ Names text mode :=
    parse_eq_ok.trans lower_trim_eq_name_iff
  have hsettings (mode : ChallengeMode) :
      Decode.layeredMode (.string text) = .ok mode ↔ text = mode.name := Decode.layeredMode_string
  refine ⟨hline, hsettings, ?_, fun environment hsets => ⟨?_, ?_⟩⟩
  · simp only [hline, hsettings]
    constructor
    · exact fun hagree mode hnames => (hagree mode).mp hnames
    · intro honly mode
      refine ⟨honly mode, ?_⟩
      rintro rfl
      exact names_name mode
  · intro words given hwords hnone
    simp only [← hline]
    exact CommandLine.parse_cases hsets.lookup_eq hwords hnone
  · intro mode file hnames
    obtain ⟨htakes, hrefuses⟩ := Config.takesMode_or_error hnames hsets file
    refine ⟨htakes, fun hne words arguments hparse => ?_⟩
    obtain ⟨error, hload⟩ := hrefuses hne
    exact ⟨error, Program.run_eq_throw hparse hload⟩

/-- A variable with a name in capitals: the command line takes it, and the run ends. -/
theorem readings_agree_iff_capitals :
    ∃ arguments error, CommandLine.parse [] [("CHALLENGE_MODE", "ZKP")] = .ok (.run arguments) ∧
      arguments.mode = some .zkp ∧
      Program.run [] none [("CHALLENGE_MODE", "ZKP")] = throw (.settings error) := by
  have hsets : Environment.Sets [("CHALLENGE_MODE", "ZKP")] "CHALLENGE_MODE" "challenge_mode"
      "ZKP" :=
    ⟨by rfl, by rfl, List.mem_singleton_self _, fun _ hother _ => List.mem_singleton.mp hother⟩
  have hread : parse "ZKP" = .ok .zkp := by rfl
  have hgroup : CommandLine.Arguments.fill [("CHALLENGE_MODE", "ZKP")] .empty .group =
      .ok .empty := by
    have hlookup : List.lookup "GROUP" [("CHALLENGE_MODE", "ZKP")] = none := by decide
    unfold CommandLine.Arguments.fill CommandLine.Arguments.standIn?
    simp only [Option.bind_some, hlookup]
  have hparse : CommandLine.parse [] [("CHALLENGE_MODE", "ZKP")] =
      .ok (.run ⟨none, some .zkp, none⟩) := by
    rw [CommandLine.parse_eq (by rfl), hgroup]
    change CommandLine.Request.run <$> CommandLine.Arguments.fill _ .empty .mode = _
    rw [CommandLine.fill_mode hsets.lookup_eq rfl, hread]
    rfl
  obtain ⟨hline, -, -, hrun⟩ := readings_agree_iff "ZKP"
  obtain ⟨-, hends⟩ := (hrun _ hsets).2 .zkp none ((hline .zkp).mp hread)
  obtain ⟨error, herror⟩ := hends (by decide) [] _ hparse
  exact ⟨_, error, hparse, rfl, herror⟩

/-- Capitals are a mode on the command line only. -/
theorem capitals_not_agreed :
    ¬∀ text mode, parse text = .ok mode ↔ Decode.layeredMode (.string text) = .ok mode := by
  intro hagree
  have hread : parse "ZKP" = .ok .zkp := by rfl
  exact absurd ((hagree "ZKP" .zkp).mp hread) nofun

end ChallengeMode

end AnonCred
