/-
# `Settings` — settings on disk, and what is checked of them

Settings come to a session by one of two commands, and before that from a file.
On the way they can be checked at two places, and neither is on the way out of
the file:

    load                 whatever the file parses to, or the defaults
    withEnvOverrides     a variable that is out of range is not taken, and the
                         saved value stays, whatever it is
    save                 only what `validate` accepts is written
    validate             called by `save`

What the file holds can have been written by something else.  `serde_json` and
the environment are outside of the repository: they are what they answer.  Of the
settings only those are here that a session or `validate` reads.
-/
import Larmindon.ProcessingLoop
import Larmindon.Text

namespace Larmindon

variable {F : Type}

def VALID_CHUNK_MS : List ℕ := [80, 160, 560, 1120]

def VALID_THEMES : List String := ["light", "dark", "system"]

def VALID_ASR_PROVIDERS : List String := ["nemotron", "soniox"]

/-- The settings as they are stored: those of a session, and those that are only checked. -/
structure StoredSettings (F : Type) extends SessionSettings F where
  themeMode : String
  diagnosticsDbPath : String

/-- What a check needs beside the settings. -/
structure CheckEnv (F : Type) where
  home : Option String
  /-- `Display` of an `f32`. -/
  display : F → String
  /-- The parent directory of a path, where it has one and it is not there, and what creating it
  gives. -/
  createParent : String → Option (String × Except String Unit)

/-- `Debug` of a list of numbers, or of what is shown of strings. -/
def debugList (shown : List String) : String := "[" ++ ", ".intercalate shown ++ "]"

def debugString (s : String) : String := "\"" ++ s ++ "\""

/-- A check of `validate`. -/
def require (p : Prop) [Decidable p] (message : String) : Except String Unit :=
  if p then .ok () else .error message

/-- `usize::from_str`. -/
def parseUsize (text : String) : Option ℕ :=
  let digits := match text.toList with
    | '+' :: cs => cs
    | cs => cs
  if digits ≠ [] ∧ digits.all isAsciiDigit = true then
    let n := digits.foldl (fun n c => 10 * n + (c.toNat - '0'.toNat)) 0
    if n < 2 ^ 64 then some n else none
  else none

namespace StoredSettings

/-- `default_diag_db_path`. -/
def defaultDiagDbPath (home : Option String) : String :=
  let configDir := match home with
    | some home => joinPath (joinPath home ".config") "larmindon"
    | none => joinPath ".config" "larmindon"
  joinPath configDir "larmindon_diag.sqlite"

/-- `Settings::with_env_overrides`. -/
def withEnvOverrides (env : String → Option String) (s : StoredSettings F) : StoredSettings F :=
  { s with
    chunkMs := match (env "CHUNK_MS").bind parseUsize with
      | some ms => if ms ∈ VALID_CHUNK_MS then ms else s.chunkMs
      | none => s.chunkMs
    intraThreads := match (env "INTRA_THREADS").bind parseUsize with
      | some n => if 1 ≤ n then n else s.intraThreads
      | none => s.intraThreads
    interThreads := match (env "INTER_THREADS").bind parseUsize with
      | some n => if 1 ≤ n then n else s.interThreads
      | none => s.interThreads
    punctuationReset := match (env "PUNCTUATION_RESET").map String.toLower with
      | some "0" | some "false" | some "no" => false
      | some "1" | some "true" | some "yes" => true
      | _ => s.punctuationReset
    sonioxApiKey := match env "SONIOX_API_KEY" with
      | some val => if isBlank val then s.sonioxApiKey else val
      | none => s.sonioxApiKey }

variable [F32 F]

def default (home : Option String) : StoredSettings F where
  asrProvider := "nemotron"
  modelPath := "~/projects/prs-nemotron/"
  chunkMs := 560
  intraThreads := 2
  interThreads := 1
  punctuationReset := true
  emptyResetThreshold := 6
  themeMode := "dark"
  vadThresholdStart := 0.5
  vadThresholdEnd := 0.3
  diagnosticsEnabled := false
  diagnosticsDbPath := defaultDiagDbPath home
  agcEnabled := false
  agcTargetRmsDbfs := -20.0
  agcMaxGainDb := 30.0
  agcAttackMs := 20.0
  agcReleaseMs := 400.0
  sonioxApiKey := ""

/-- `Settings::load`, from what reading the file gives. -/
def load (home : Option String) (parse : String → Except String (StoredSettings F)) :
    Except String String → StoredSettings F
  | .ok contents =>
      match parse contents with
      | .ok settings => settings
      | .error _ => default home
  | .error _ => default home

/-- Where diagnostics are to be written, their path is there, or can be made. -/
def validateDiagnostics (env : CheckEnv F) (s : StoredSettings F) : Except String Unit :=
  if s.diagnosticsEnabled then do
    require (isBlank s.diagnosticsDbPath = false)
      "diagnostics_db_path cannot be empty when diagnostics_enabled"
    match env.createParent (expandTilde env.home s.diagnosticsDbPath) with
    | some (parent, .error e) =>
        .error ("Cannot create parent directory " ++ parent ++ " for diagnostics DB: " ++ e)
    | some (_, .ok ()) | none => .ok ()
  else .ok ()

/-- `Settings::validate`. -/
def validate (env : CheckEnv F) (s : StoredSettings F) : Except String Unit := do
  require (s.asrProvider ∈ VALID_ASR_PROVIDERS) <|
    "Invalid asr_provider '" ++ s.asrProvider ++ "'; must be one of " ++
      debugList (VALID_ASR_PROVIDERS.map debugString)
  require (¬ (s.asrProvider = "soniox" ∧ isBlank s.sonioxApiKey = true))
    "A Soniox API key is required when the Soniox provider is selected"
  require (s.chunkMs ∈ VALID_CHUNK_MS) <|
    "Invalid chunk_ms " ++ toString s.chunkMs ++ "; must be one of " ++
      debugList (VALID_CHUNK_MS.map toString)
  require (1 ≤ s.intraThreads) "intra_threads must be at least 1"
  require (1 ≤ s.interThreads) "inter_threads must be at least 1"
  require (1 ≤ s.emptyResetThreshold) "empty_reset_threshold must be at least 1"
  require (isBlank s.modelPath = false) "model_path cannot be empty"
  require (s.themeMode ∈ VALID_THEMES) <|
    "Invalid theme_mode '" ++ s.themeMode ++ "'; must be one of " ++
      debugList (VALID_THEMES.map debugString)
  require (0.0 ≤ s.vadThresholdStart ∧ s.vadThresholdStart ≤ 1.0) <|
    "vad_threshold_start must be between 0.0 and 1.0, got " ++ env.display s.vadThresholdStart
  require (0.0 ≤ s.vadThresholdEnd ∧ s.vadThresholdEnd ≤ 1.0) <|
    "vad_threshold_end must be between 0.0 and 1.0, got " ++ env.display s.vadThresholdEnd
  require (¬ s.vadThresholdStart < s.vadThresholdEnd) <|
    "vad_threshold_start (" ++ env.display s.vadThresholdStart ++
      ") must be >= vad_threshold_end (" ++ env.display s.vadThresholdEnd ++ ")"
  s.validateDiagnostics env
  require (-60.0 ≤ s.agcTargetRmsDbfs ∧ s.agcTargetRmsDbfs ≤ 0.0) <|
    "agc_target_rms_dbfs must be between -60.0 and 0.0, got " ++ env.display s.agcTargetRmsDbfs
  require (0.0 ≤ s.agcMaxGainDb ∧ s.agcMaxGainDb ≤ 60.0) <|
    "agc_max_gain_db must be between 0.0 and 60.0, got " ++ env.display s.agcMaxGainDb
  require (1.0 ≤ s.agcAttackMs ∧ s.agcAttackMs ≤ 1000.0) <|
    "agc_attack_ms must be between 1.0 and 1000.0, got " ++ env.display s.agcAttackMs
  require (1.0 ≤ s.agcReleaseMs ∧ s.agcReleaseMs ≤ 5000.0) <|
    "agc_release_ms must be between 1.0 and 5000.0, got " ++ env.display s.agcReleaseMs

/-- `Settings::save`, up to the writing, from what that gives. -/
def save (env : CheckEnv F) (write : StoredSettings F → Except String Unit)
    (s : StoredSettings F) : Except String Unit := do
  s.validate env
  write s

/-! ## What the checks let through -/

/-- Every value is in its range. -/
structure Valid (env : CheckEnv F) (s : StoredSettings F) : Prop where
  asrProvider : s.asrProvider ∈ VALID_ASR_PROVIDERS
  sonioxApiKey : ¬ (s.asrProvider = "soniox" ∧ isBlank s.sonioxApiKey = true)
  chunkMs : s.chunkMs ∈ VALID_CHUNK_MS
  intraThreads : 1 ≤ s.intraThreads
  interThreads : 1 ≤ s.interThreads
  emptyResetThreshold : 1 ≤ s.emptyResetThreshold
  modelPath : isBlank s.modelPath = false
  themeMode : s.themeMode ∈ VALID_THEMES
  vadThresholdStart : 0.0 ≤ s.vadThresholdStart ∧ s.vadThresholdStart ≤ 1.0
  vadThresholdEnd : 0.0 ≤ s.vadThresholdEnd ∧ s.vadThresholdEnd ≤ 1.0
  thresholds : ¬ s.vadThresholdStart < s.vadThresholdEnd
  diagnostics : s.validateDiagnostics env = .ok ()
  agcTargetRmsDbfs : -60.0 ≤ s.agcTargetRmsDbfs ∧ s.agcTargetRmsDbfs ≤ 0.0
  agcMaxGainDb : 0.0 ≤ s.agcMaxGainDb ∧ s.agcMaxGainDb ≤ 60.0
  agcAttackMs : 1.0 ≤ s.agcAttackMs ∧ s.agcAttackMs ≤ 1000.0
  agcReleaseMs : 1.0 ≤ s.agcReleaseMs ∧ s.agcReleaseMs ≤ 5000.0

omit [F32 F] in
/-- A check that was passed. -/
theorem require_bind_ok {p : Prop} [Decidable p] {message : String}
    {f : Unit → Except String Unit} (h : (require p message >>= f) = .ok ()) : p ∧ f () = .ok () := by
  rw [require] at h
  split at h
  case isTrue hp => exact ⟨hp, h⟩
  case isFalse => cases h

omit [F32 F] in
/-- A check that passes goes on to the next. -/
theorem require_bind {p : Prop} [Decidable p] (h : p) {message : String}
    {f : Unit → Except String Unit} (hf : f () = .ok ()) : (require p message >>= f) = .ok () := by
  rw [require, if_pos h]
  exact hf

/-- What is validated is in its range: the checks in their order. -/
theorem Valid.of_validate {env : CheckEnv F} {s : StoredSettings F} (h : s.validate env = .ok ()) :
    s.Valid env := by
  obtain ⟨h₁, h⟩ := require_bind_ok h
  obtain ⟨h₂, h⟩ := require_bind_ok h
  obtain ⟨h₃, h⟩ := require_bind_ok h
  obtain ⟨h₄, h⟩ := require_bind_ok h
  obtain ⟨h₅, h⟩ := require_bind_ok h
  obtain ⟨h₆, h⟩ := require_bind_ok h
  obtain ⟨h₇, h⟩ := require_bind_ok h
  obtain ⟨h₈, h⟩ := require_bind_ok h
  obtain ⟨h₉, h⟩ := require_bind_ok h
  obtain ⟨h₁₀, h⟩ := require_bind_ok h
  obtain ⟨h₁₁, h⟩ := require_bind_ok h
  obtain ⟨⟨⟩, h₁₂, h⟩ := bind_ok h
  obtain ⟨h₁₃, h⟩ := require_bind_ok h
  obtain ⟨h₁₄, h⟩ := require_bind_ok h
  obtain ⟨h₁₅, h₁₆⟩ := require_bind_ok h
  have hrelease : 1.0 ≤ s.agcReleaseMs ∧ s.agcReleaseMs ≤ 5000.0 := by
    rw [require] at h₁₆
    split at h₁₆
    case isTrue hp => exact hp
    case isFalse => cases h₁₆
  exact ⟨h₁, h₂, h₃, h₄, h₅, h₆, h₇, h₈, h₉, h₁₀, h₁₁, h₁₂, h₁₃, h₁₄, h₁₅, hrelease⟩

/-- What was saved was in its range. -/
theorem Valid.of_save {env : CheckEnv F} {write : StoredSettings F → Except String Unit}
    {s : StoredSettings F} (h : s.save env write = .ok ()) : s.Valid env := by
  obtain ⟨⟨⟩, hvalid, -⟩ := bind_ok h
  exact .of_validate hvalid

/-- What is in its range is validated. -/
theorem Valid.validate {env : CheckEnv F} {s : StoredSettings F} (h : s.Valid env) :
    s.validate env = .ok () := by
  refine require_bind h.asrProvider <| require_bind h.sonioxApiKey <| require_bind h.chunkMs <|
    require_bind h.intraThreads <| require_bind h.interThreads <|
    require_bind h.emptyResetThreshold <| require_bind h.modelPath <| require_bind h.themeMode <|
    require_bind h.vadThresholdStart <| require_bind h.vadThresholdEnd <|
    require_bind h.thresholds ?_
  rw [h.diagnostics]
  exact require_bind h.agcTargetRmsDbfs <| require_bind h.agcMaxGainDb <|
    require_bind h.agcAttackMs <| if_pos h.agcReleaseMs

/-- The defaults pass their own check. -/
theorem validate_default (env : CheckEnv ℝ) (home : Option String) :
    (default home).validate env = .ok () := by
  have hmodel : isBlank "~/projects/prs-nemotron/" = false := by decide +kernel
  refine Valid.validate ?_
  exact
    { asrProvider := by simp [default, VALID_ASR_PROVIDERS]
      sonioxApiKey := by simp [default]
      chunkMs := by simp [default, VALID_CHUNK_MS]
      intraThreads := Nat.le_succ 1
      interThreads := Nat.le_refl 1
      emptyResetThreshold := by simp [default]
      modelPath := hmodel
      themeMode := by simp [default, VALID_THEMES]
      vadThresholdStart := by norm_num [default]
      vadThresholdEnd := by norm_num [default]
      thresholds := by norm_num [default]
      diagnostics := rfl
      agcTargetRmsDbfs := by norm_num [default]
      agcMaxGainDb := by norm_num [default]
      agcAttackMs := by norm_num [default]
      agcReleaseMs := by norm_num [default] }

omit [F32 F] in
/-- The environment only brings durations in that are valid. -/
theorem chunkMs_withEnvOverrides (env : String → Option String) (s : StoredSettings F) :
    (s.withEnvOverrides env).chunkMs = s.chunkMs ∨
      (s.withEnvOverrides env).chunkMs ∈ VALID_CHUNK_MS := by
  cases hms : (env "CHUNK_MS").bind parseUsize with
  | none => exact .inl (by simp [withEnvOverrides, hms])
  | some ms =>
      cases Decidable.em (ms ∈ VALID_CHUNK_MS) with
      | inl hvalid => exact .inr (by simp [withEnvOverrides, hms, hvalid])
      | inr hinvalid => exact .inl (by simp [withEnvOverrides, hms, hinvalid])

end StoredSettings

end Larmindon
