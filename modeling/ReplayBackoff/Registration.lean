import ReplayBackoff.ConfigCache
import ReplayBackoff.TuningAgreement

/-!
# How the Lambda finds the registered replayers

A replayer writes its parameter under the prefix of the stage, and the function asks SSM for the
hierarchy of the path in its environment. `AllFound` says that this works out for every replayer of
a stage: the environment is parsed, every parameter is in the hierarchy, the names are distinct, and
with distinct ARNs the loaded map has the configuration of every replayer. `Registrable` lists what
the options and the construct paths have to satisfy for that.
-/

namespace ReplayBackoff

/-- The path as a directory: one slash at its end. -/
def directory (path : String) : List Char :=
  (if path.toList.getLast? = some '/' then path.toList.dropLast else path.toList) ++ ['/']

/-- What SSM returns for a path: the names that go on below it. -/
def InHierarchy (path name : String) : Prop := directory path <+: name.toList

instance (path name : String) : Decidable (InHierarchy path name) :=
  inferInstanceAs (Decidable (directory path <+: name.toList))

def visible (path : String) (parameters : List Parameter) : List Parameter :=
  parameters.filter (fun parameter => parameter.name.any (fun name => InHierarchy path name))

def SqsReplayer.arn (replayer : SqsReplayer) : String := replayer.props.replayQueue.queueArn

/-- Every replayer of the stage is found by the Lambda. -/
def AllFound (stage : Stage) : Prop :=
  ∃ env, Environment.parse stage.singleton.environment = .ok env ∧
    (∀ replayer ∈ stage.replayers,
      InHierarchy env.configPath (replayer.parameterName stage.singleton)) ∧
    (stage.replayers.map (·.parameterName stage.singleton)).Nodup ∧
    ((stage.replayers.map (·.arn)).Nodup →
      ∀ load, load.Perm (visible env.configPath stage.parameters) →
        ∀ replayer ∈ stage.replayers, ∃ config, (loadMap load).lookup replayer.arn = some config ∧
          QueueConfig.fromStr replayer.props.stringValue = some config)

/-- The number is written as null, or as a whole 32-bit number. -/
def ReadableNumber (x : JsNumber) : Prop := x.value? = none ∨ FitsU32 x

structure ReadableTuning (props : SqsReplayerProps) : Prop where
  maxAttempts : ∀ attempts, props.maxAttempts = some attempts → ReadableNumber attempts
  backoffRate : ∀ rate, props.backoffRate = some rate →
    rate.toSeconds.greaterThan 4294967295 = false

/-- The directory is in the prefix, or it goes on by what all the paths begin with. -/
def Covers (directory pre : List Char) (paths : List (List Char)) : Prop :=
  directory <+: pre ∨ ∃ common, directory = pre ++ common ∧ ∀ path ∈ paths, common <+: path

def SqsReplayerProps.variables (props : SqsReplayerProps) : HashMap String String :=
  props.environment.getD ∅

def SqsReplayerProps.configPrefix (props : SqsReplayerProps) : String :=
  props.configPath.getD SqsReplayerSingleton.defaultConfigPath

/-- The path that the function asks SSM for is absolute and covers the parameters: `configPath`,
unless the environment option has another one. -/
def PathCovers (props : SqsReplayerProps) (paths : List String) : Prop :=
  match props.variables.lookup "SSM_PARAMETER_PATH" with
  | none =>
    props.configPrefix.toList.head? = some '/' ∧ props.configPrefix.toList.getLast? = some '/'
  | some path => path.toList.head? = some '/' ∧
      Covers (directory path) props.configPrefix.toList
        (paths.map (fun path => (sanitize path).toList))

/-- What the Lambda needs of the options of the first replayer, of the construct paths, and of each
tuning. -/
structure Registrable (stage : Stage) : Prop where
  path : PathCovers stage.first.props (stage.replayers.map (·.path))
  maxAttempts : Environment.PositiveUpTo stage.first.props.variables "MAX_ATTEMPTS" 4294967295
  backoffRate : Environment.PositiveUpTo stage.first.props.variables "BACKOFF_RATE" 4294967295
  maximumDelay : Environment.PositiveUpTo stage.first.props.variables "MAXIMUM_DELAY" 900
  jitter : Environment.FlagText stage.first.props.variables "BACKOFF_JITTER"
  names : (stage.replayers.map (fun replayer => sanitize replayer.path)).Nodup
  tuning : (stage.replayers.map (·.arn)).Nodup →
    ∀ replayer ∈ stage.replayers, ReadableTuning replayer.props

theorem directory_of_slash {path : String} (h : path.toList.getLast? = some '/') :
    directory path = path.toList := by
  rw [directory, if_pos h]
  exact List.dropLast_append_getLast? _ h

theorem head_sanitize {path : String} (h : Environment.startsWithSlash path = false) :
    (sanitize path).toList.head? ≠ some '/' := by
  rw [sanitize, String.toList_ofList]
  simp only [Environment.startsWithSlash, decide_eq_false_iff_not] at h
  cases hpath : path.toList with
  | nil => simp
  | cons c cs =>
    rw [hpath, List.head?_cons, Option.some.injEq] at h
    rw [List.flatMap_cons]
    by_cases hkeep : keeps c = true
    · simp [hkeep, h]
    · by_cases hwide : c.toNat < 65536 <;> simp [hkeep, utf16Length, hwide, List.replicate]

theorem inHierarchy_own_iff {configPath path : String}
    (h : Environment.startsWithSlash path = false) :
    InHierarchy configPath (configPath ++ sanitize path) ↔
      configPath.toList.getLast? = some '/' := by
  rw [InHierarchy, String.toList_append]
  constructor
  · intro hprefix
    by_contra hslash
    rw [directory, if_neg hslash, List.prefix_append_right_inj] at hprefix
    obtain ⟨rest, hrest⟩ := hprefix
    exact head_sanitize h (by rw [← hrest]; rfl)
  · intro hslash
    rw [directory_of_slash hslash]
    exact List.prefix_append _ _

theorem append_injective (s : String) : Function.Injective (fun t : String => s ++ t) := by
  intro t t' h
  have htoList := congrArg String.toList h
  simp only [String.toList_append, List.append_cancel_left_eq] at htoList
  exact String.toList_inj.mp htoList

theorem parameterName_nodup_iff (stage : Stage) :
    (stage.replayers.map (·.parameterName stage.singleton)).Nodup ↔
      (stage.replayers.map (fun replayer => sanitize replayer.path)).Nodup := by
  have hmap : stage.replayers.map (·.parameterName stage.singleton) =
      (stage.replayers.map (fun replayer => sanitize replayer.path)).map
        (fun name => stage.singleton.configPath ++ name) := by
    rw [List.map_map]
    rfl
  rw [hmap, List.nodup_map_iff (append_injective _)]

theorem lookup_configPath (props : SqsReplayerProps) :
    (SqsReplayerSingleton.create props).environment.lookup "SSM_PARAMETER_PATH" =
      some ((props.variables.lookup "SSM_PARAMETER_PATH").getD props.configPrefix) := by
  have hlast := HashMap.lastValue_map_entries props.variables id "SSM_PARAMETER_PATH"
  simp only [id, SqsReplayerProps.variables] at hlast
  rw [SqsReplayerSingleton.create, HashMap.lookup_insertAll, hlast, SqsReplayerProps.variables]
  cases (props.environment.getD ∅).lookup "SSM_PARAMETER_PATH" <;> rfl

theorem lookup_variable (props : SqsReplayerProps) {name : String}
    (hpath : name ≠ "SSM_PARAMETER_PATH") (hlog : name ≠ "RUST_LOG") :
    (SqsReplayerSingleton.create props).environment.lookup name = props.variables.lookup name := by
  have hlast := HashMap.lastValue_map_entries props.variables id name
  simp only [id, SqsReplayerProps.variables] at hlast
  have hown : (HashMap.collect [("SSM_PARAMETER_PATH", props.configPath.getD
      SqsReplayerSingleton.defaultConfigPath), ("RUST_LOG", "info")]).lookup name = none := by
    rw [HashMap.lookup_collect]
    simp [HashMap.lastValue, hpath.symm, hlog.symm]
  rw [SqsReplayerSingleton.create, HashMap.lookup_insertAll, hlast, hown, Option.or_none]
  exact Option.map_id' ..

theorem configPath_of_parse {props : SqsReplayerProps} {env : Environment}
    (h : Environment.parse (SqsReplayerSingleton.create props).environment = .ok env) :
    env.configPath = (props.variables.lookup "SSM_PARAMETER_PATH").getD props.configPrefix := by
  rw [((Environment.parse_ok_iff _ _).mp h).1, lookup_configPath]
  rfl

theorem acceptable_iff (props : SqsReplayerProps) :
    Environment.Acceptable (SqsReplayerSingleton.create props).environment ↔
      ((props.variables.lookup "SSM_PARAMETER_PATH").getD props.configPrefix).toList.head? = some '/' ∧
      Environment.PositiveUpTo props.variables "MAX_ATTEMPTS" 4294967295 ∧
      Environment.PositiveUpTo props.variables "BACKOFF_RATE" 4294967295 ∧
      Environment.PositiveUpTo props.variables "MAXIMUM_DELAY" 900 ∧
      Environment.FlagText props.variables "BACKOFF_JITTER" := by
  have hpositive : ∀ {name bound}, name ≠ "SSM_PARAMETER_PATH" → name ≠ "RUST_LOG" →
      (Environment.PositiveUpTo (SqsReplayerSingleton.create props).environment name bound ↔
        Environment.PositiveUpTo props.variables name bound) := by
    intro name bound hpath hlog
    rw [Environment.PositiveUpTo, lookup_variable props hpath hlog, Environment.PositiveUpTo]
  have hflag : Environment.FlagText (SqsReplayerSingleton.create props).environment
      "BACKOFF_JITTER" ↔ Environment.FlagText props.variables "BACKOFF_JITTER" := by
    rw [Environment.FlagText, lookup_variable props (by decide) (by decide), Environment.FlagText]
  have hslash : (∀ value, (SqsReplayerSingleton.create props).environment.lookup
      "SSM_PARAMETER_PATH" = some value → Environment.startsWithSlash value = true) ↔
        ((props.variables.lookup "SSM_PARAMETER_PATH").getD props.configPrefix).toList.head? =
          some '/' := by
    rw [lookup_configPath]
    simp [Environment.startsWithSlash]
  constructor
  · rintro ⟨hpath, ha, hr, hd, hj⟩
    exact ⟨hslash.mp hpath, (hpositive (by decide) (by decide)).mp ha,
      (hpositive (by decide) (by decide)).mp hr, (hpositive (by decide) (by decide)).mp hd,
      hflag.mp hj⟩
  · rintro ⟨hpath, ha, hr, hd, hj⟩
    exact ⟨hslash.mpr hpath, (hpositive (by decide) (by decide)).mpr ha,
      (hpositive (by decide) (by decide)).mpr hr, (hpositive (by decide) (by decide)).mpr hd,
      hflag.mpr hj⟩

theorem mem_configsOf {parameters : List Parameter} {config : QueueConfig} :
    config ∈ configsOf parameters ↔ ∃ parameter ∈ parameters, parameter.config = some config :=
  List.mem_filterMap

theorem mem_of_lastConfig {parameters : List Parameter} {arn : String} {config : QueueConfig}
    (h : lastConfig parameters arn = some config) : config ∈ configsOf parameters :=
  (List.mem_filter.mp (List.mem_of_getLast? h)).1

theorem exists_lastConfig {parameters : List Parameter} {config : QueueConfig}
    (h : config ∈ configsOf parameters) :
    ∃ last, lastConfig parameters config.replayQueueArn = some last := by
  have hmem : config ∈ (configsOf parameters).filter
      (fun c => c.replayQueueArn = config.replayQueueArn) := by simp [h]
  exact ⟨_, List.getLast?_eq_some_getLast (List.ne_nil_of_mem hmem)⟩

theorem replayQueueArn_of_stringValue {props : SqsReplayerProps} {config : QueueConfig}
    (h : QueueConfig.fromStr props.stringValue = some config) :
    config.replayQueueArn = props.replayQueue.queueArn := by
  simp only [fromStr_stringValue, Option.bind_eq_some_iff, Option.map_eq_some_iff] at h
  obtain ⟨a, ha, r, hr, d, hd, hconfig⟩ := h
  rw [← hconfig]

theorem config_parameter (replayer : SqsReplayer) (singleton : SqsReplayerSingleton) :
    (replayer.parameter singleton).config = QueueConfig.fromStr replayer.props.stringValue := by
  rw [Parameter.config, SqsReplayer.parameter, Option.bind_some]

theorem mem_configsOf_stage {stage : Stage} {load : List Parameter}
    (hload : load.Perm stage.parameters) {config : QueueConfig} :
    config ∈ configsOf load ↔ ∃ replayer ∈ stage.replayers,
      QueueConfig.fromStr replayer.props.stringValue = some config := by
  simp only [mem_configsOf, hload.mem_iff, Stage.parameters, List.mem_map]
  constructor
  · rintro ⟨-, ⟨replayer, hreplayer, rfl⟩, hconfig⟩
    rw [config_parameter] at hconfig
    exact ⟨replayer, hreplayer, hconfig⟩
  · rintro ⟨replayer, hreplayer, hconfig⟩
    rw [← config_parameter replayer stage.singleton] at hconfig
    exact ⟨_, ⟨replayer, hreplayer, rfl⟩, hconfig⟩

/-- With distinct ARNs the map has the configuration of every replayer that can be read. -/
theorem lookup_of_readable {stage : Stage} (harns : (stage.replayers.map (·.arn)).Nodup)
    {load : List Parameter} (hload : load.Perm stage.parameters) {replayer : SqsReplayer}
    (hreplayer : replayer ∈ stage.replayers) {config : QueueConfig}
    (hconfig : QueueConfig.fromStr replayer.props.stringValue = some config) :
    (loadMap load).lookup replayer.arn = some config := by
  have harn := replayQueueArn_of_stringValue hconfig
  obtain ⟨last, hlast⟩ :=
    exists_lastConfig ((mem_configsOf_stage hload).mpr ⟨replayer, hreplayer, hconfig⟩)
  obtain ⟨other, hother, hread⟩ := (mem_configsOf_stage hload).mp (mem_of_lastConfig hlast)
  have hsame : other = replayer := by
    apply List.inj_on_of_nodup_map harns hother hreplayer
    exact (replayQueueArn_of_stringValue hread).symm.trans
      ((replayQueueArn_of_lastConfig hlast).trans harn)
  rw [hsame, hconfig] at hread
  rw [lookup_loadMap, SqsReplayer.arn, ← harn, hlast, hread]

theorem visible_of_inHierarchy {stage : Stage} {path : String}
    (h : ∀ replayer ∈ stage.replayers, InHierarchy path (replayer.parameterName stage.singleton)) :
    visible path stage.parameters = stage.parameters := by
  rw [visible, List.filter_eq_self]
  intro parameter hparameter
  obtain ⟨replayer, hreplayer, rfl⟩ := List.mem_map.mp hparameter
  simpa [SqsReplayer.parameter] using h replayer hreplayer

theorem exists_decodeNumber_iff (x : JsNumber) :
    (∃ decoded, decodeNumber (some x) = some decoded) ↔ ReadableNumber x := by
  constructor
  · rintro ⟨decoded, hdecoded⟩
    cases decoded with
    | some m => exact Or.inr ⟨m.toNat, toNat_le_max m, (decodeNumber_eq_value_iff x m).mp hdecoded⟩
    | none =>
      cases x with
      | nan => exact Or.inl rfl
      | infinity negative => exact Or.inl rfl
      | zero negative =>
        rw [decodeNumber, JsNumber.toJson, readU32_number, Option.map_eq_some_iff] at hdecoded
        obtain ⟨m, -, hm⟩ := hdecoded
        cases hm
      | finite negative d =>
        rw [decodeNumber, JsNumber.toJson, readU32_number, Option.map_eq_some_iff] at hdecoded
        obtain ⟨m, -, hm⟩ := hdecoded
        cases hm
  · rintro (hnone | hfits)
    · cases x with
      | nan => exact ⟨none, rfl⟩
      | infinity negative => exact ⟨none, rfl⟩
      | zero negative => cases hnone
      | finite negative d => cases hnone
    · obtain ⟨decoded, hdecoded, -⟩ := (exists_decodes_iff (some x)).mpr (by
        rintro y ⟨rfl⟩
        exact hfits)
      exact ⟨decoded, hdecoded⟩

theorem validateTuning_of_checkProps {props : SqsReplayerProps} (h : checkProps props = .ok ()) :
    validateTuning props = .ok () := by
  unfold checkProps at h
  cases hfifo : props.sourceQueue.fifo with
  | true => simp [hfifo, throw, throwThe, MonadExceptOf.throw, bind, Except.bind] at h
  | false => simpa [hfifo, bind, Except.bind, pure, Except.pure] using h

theorem readable_iff {props : SqsReplayerProps} (hvalid : validateTuning props = .ok ()) :
    (∃ config, QueueConfig.fromStr props.stringValue = some config) ↔ ReadableTuning props := by
  have hrate : (∃ r, decodeNumber (props.backoffRate.map (·.toSeconds)) = some r) ↔
      ∀ rate, props.backoffRate = some rate → rate.toSeconds.greaterThan 4294967295 = false := by
    cases props.backoffRate with
    | none => simp [decodeNumber]
    | some rate =>
      obtain ⟨n, hn⟩ := rate.whole
      simp [exists_decodeNumber_iff, ReadableNumber, hn, duration_fits_iff]
  have hattempts : (∃ a, decodeNumber props.maxAttempts = some a) ↔
      ∀ attempts, props.maxAttempts = some attempts → ReadableNumber attempts := by
    cases props.maxAttempts with
    | none => simp [decodeNumber]
    | some attempts => simp [exists_decodeNumber_iff]
  obtain ⟨d, hd, -⟩ := (exists_decodes_iff _).mpr (maximumDelay_fits hvalid)
  simp only [fromStr_stringValue, hd, Option.map_some, Option.bind_eq_some_iff]
  constructor
  · rintro ⟨config, a, ha, r, hr, -⟩
    exact ⟨hattempts.mp ⟨a, ha⟩, hrate.mp ⟨r, hr⟩⟩
  · intro h
    obtain ⟨a, ha⟩ := hattempts.mpr h.maxAttempts
    obtain ⟨r, hr⟩ := hrate.mpr h.backoffRate
    exact ⟨_, a, ha, r, hr, rfl⟩

theorem prefix_append_iff {dir pre path : List Char} :
    dir <+: pre ++ path ↔ dir <+: pre ∨ ∃ common, dir = pre ++ common ∧ common <+: path := by
  constructor
  · intro h
    rcases List.prefix_or_prefix_of_prefix h (List.prefix_append pre path) with hdir | ⟨common, rfl⟩
    · exact Or.inl hdir
    · exact Or.inr ⟨common, rfl, (List.prefix_append_right_inj pre).mp h⟩
  · rintro (hdir | ⟨common, rfl, hcommon⟩)
    · exact hdir.trans (List.prefix_append pre path)
    · exact (List.prefix_append_right_inj pre).mpr hcommon

/-- A directory has all names under the prefix below it exactly when it covers their paths. -/
theorem covers_iff {dir pre : List Char} {paths : List (List Char)} (hne : paths ≠ []) :
    (∀ path ∈ paths, dir <+: pre ++ path) ↔ Covers dir pre paths := by
  constructor
  · intro h
    obtain ⟨first, hfirst⟩ := List.exists_mem_of_ne_nil _ hne
    rcases prefix_append_iff.mp (h first hfirst) with hdir | ⟨common, rfl, -⟩
    · exact Or.inl hdir
    · exact Or.inr ⟨common, rfl, fun path hpath =>
        (List.prefix_append_right_inj pre).mp (h path hpath)⟩
  · rintro (hdir | ⟨common, rfl, hcommon⟩) path hpath
    · exact hdir.trans (List.prefix_append pre path)
    · exact (List.prefix_append_right_inj pre).mpr (hcommon path hpath)

theorem pathCovers_iff (stage : Stage) :
    ((stage.first.props.variables.lookup "SSM_PARAMETER_PATH").getD
        stage.first.props.configPrefix).toList.head? = some '/' ∧
      (∀ replayer ∈ stage.replayers,
        InHierarchy ((stage.first.props.variables.lookup "SSM_PARAMETER_PATH").getD
          stage.first.props.configPrefix) (replayer.parameterName stage.singleton)) ↔
      PathCovers stage.first.props (stage.replayers.map (·.path)) := by
  unfold PathCovers
  cases stage.first.props.variables.lookup "SSM_PARAMETER_PATH" with
  | none =>
    refine and_congr_right fun _ => ⟨fun hin => ?_, fun hslash replayer _ => ?_⟩
    · exact (inHierarchy_own_iff stage.first.relative).mp (hin stage.first List.mem_cons_self)
    · exact (inHierarchy_own_iff replayer.relative).mpr hslash
  | some path =>
    refine and_congr_right fun _ => ?_
    rw [← covers_iff (by simp [Stage.replayers])]
    simp only [InHierarchy, SqsReplayer.parameterName, String.toList_append, List.mem_map,
      forall_exists_index, and_imp, forall_apply_eq_imp_iff₂, Option.getD_some]
    exact Iff.rfl

/-- The Lambda finds every replayer of a stage exactly when the options of the first one give it an
environment it accepts and a path that covers the names, the sanitized construct paths are distinct,
and, for the loaded map, every tuning can be read. -/
theorem all_found_iff (stage : Stage) : AllFound stage ↔ Registrable stage := by
  constructor
  · rintro ⟨env, hparse, hin, hnames, hload⟩
    rw [configPath_of_parse hparse] at hin
    obtain ⟨hslash, ha, hr, hd, hj⟩ :=
      (acceptable_iff _).mp ((Environment.parse_isOk_iff _).mp ⟨env, hparse⟩)
    refine ⟨(pathCovers_iff stage).mp ⟨hslash, hin⟩, ha, hr, hd, hj,
      (parameterName_nodup_iff stage).mp hnames, ?_⟩
    intro harns replayer hreplayer
    obtain ⟨config, -, hread⟩ := hload harns _ (List.Perm.refl _) replayer hreplayer
    exact (readable_iff (validateTuning_of_checkProps replayer.accepted)).mp ⟨config, hread⟩
  · rintro ⟨hpath, ha, hr, hd, hj, hnames, htuning⟩
    obtain ⟨hslash, hin⟩ := (pathCovers_iff stage).mpr hpath
    obtain ⟨env, hparse⟩ :=
      (Environment.parse_isOk_iff _).mpr ((acceptable_iff _).mpr ⟨hslash, ha, hr, hd, hj⟩)
    rw [← configPath_of_parse hparse] at hin
    refine ⟨env, hparse, hin, (parameterName_nodup_iff stage).mpr hnames, ?_⟩
    intro harns load hperm replayer hreplayer
    rw [visible_of_inHierarchy hin] at hperm
    obtain ⟨config, hread⟩ :=
      (readable_iff (validateTuning_of_checkProps replayer.accepted)).mpr
        (htuning harns replayer hreplayer)
    exact ⟨config, lookup_of_readable harns hperm hreplayer hread, hread⟩

/-- One replayer without tuning. -/
def stageAt (configPath : Option String) : Stage where
  first := ⟨"App/Replayer", ⟨⟨"https://sqs/Queue", false⟩, ⟨"arn:aws:sqs:ReplayQueue"⟩, none, none,
    none, none, none, none, configPath⟩, by decide, rfl⟩
  rest := []

def sixty : ShortestDecimal := ⟨6, 2, by decide⟩

theorem value_sixty : sixty.value = 60 := by
  have hlength : sixty.length = 1 := by decide
  rw [ShortestDecimal.value, hlength]
  norm_num [sixty]

def oneMinute : Duration where
  toSeconds := .finite false sixty
  whole := ⟨60, by norm_num [JsNumber.value?, value_sixty]⟩

def ordersProps : SqsReplayerProps where
  sourceQueue := ⟨"https://sqs/Orders", false⟩
  replayQueue := ⟨"arn:aws:sqs:OrdersReplay"⟩
  maxAttempts := some (.finite false three)
  backoffRate := none
  maximumDelay := none
  useJitter := some true
  batchSize := none
  environment := some ((∅ : HashMap String String).insert "MAX_ATTEMPTS" "7" |>.insert
    "SSM_PARAMETER_PATH" "/custom/App")
  configPath := some "/custom/"

def mailProps : SqsReplayerProps where
  sourceQueue := ⟨"https://sqs/Mail", false⟩
  replayQueue := ⟨"arn:aws:sqs:MailReplay"⟩
  maxAttempts := none
  backoffRate := some oneMinute
  maximumDelay := some oneMinute
  useJitter := none
  batchSize := none
  environment := none
  configPath := none

theorem ordersProps_accepted : checkProps ordersProps = .ok () := by
  refine (validateTuning_ok_iff ordersProps).mpr ⟨?_, rfl, rfl, rfl⟩
  norm_num [ordersProps, JsNumber.lessThan, JsNumber.value?, value_three]

theorem mailProps_accepted : checkProps mailProps = .ok () := by
  refine (validateTuning_ok_iff mailProps).mpr ⟨rfl, ?_, ?_, rfl⟩ <;>
    norm_num [mailProps, oneMinute, outside, JsNumber.lessThan, JsNumber.greaterThan,
      JsNumber.value?, value_sixty]

/-- Two tuned replayers of one app. The function asks for the parameters of the app only. -/
def tunedStage : Stage where
  first := ⟨"App/Orders/Replayer", ordersProps, by decide, ordersProps_accepted⟩
  rest := [⟨"App/Mail/Replayer", mailProps, by decide, mailProps_accepted⟩]

theorem all_found_iff_sample : AllFound tunedStage := by
  refine (all_found_iff tunedStage).mpr ⟨?_, ?_, ?_, ?_, ?_, ?_, ?_⟩
  · exact ⟨by decide, Or.inr ⟨"App/".toList, by decide, by decide⟩⟩
  · rintro value ⟨rfl⟩
    exact ⟨7, by decide, by decide, by decide⟩
  · rintro value ⟨⟩
  · rintro value ⟨⟩
  · rintro value ⟨⟩
  · decide
  · intro _ replayer hreplayer
    rcases List.mem_cons.mp hreplayer with rfl | hreplayer
    · refine ⟨?_, ?_⟩
      · rintro _ ⟨rfl⟩
        exact Or.inr ⟨3, by decide, by norm_num [JsNumber.value?, value_three]⟩
      · rintro _ ⟨⟩
    · obtain rfl := List.mem_singleton.mp hreplayer
      refine ⟨?_, ?_⟩
      · rintro _ ⟨⟩
      · rintro _ ⟨rfl⟩
        norm_num [oneMinute, JsNumber.greaterThan, JsNumber.value?, value_sixty]

/-- With `/custom` as its path the construct writes `/customApp/Replayer`, which is not below
`/custom/`. -/
theorem path_without_slash_not_found : ¬ AllFound (stageAt (some "/custom")) := by
  rintro ⟨env, hparse, hin, -⟩
  have hpath := configPath_of_parse hparse
  have hfirst := hin _ List.mem_cons_self
  rw [hpath] at hfirst
  exact absurd hfirst (by decide)

end ReplayBackoff
