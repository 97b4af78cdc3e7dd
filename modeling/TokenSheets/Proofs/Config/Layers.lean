import TokenSheets.Proofs.Config.Fields
import TokenSheets.Proofs.Dimension.Measure
import TokenSheets.Proofs.Namespace.Accounting
import TokenSheets.Proofs.Store.Removal

/-!
# Which configuration is used

The configuration file is the one that an option names, or else the usual one if it is there.
`Options.Finds` says what is found in its place: the fields of a document, none if there is no file
and none is asked for, or an error. The three layers are put together from the fields that are
found, and judged after that.

* `Options.exists_finds`: something is always found;
* `Options.configIn_eq_ok_iff`: what it makes of the three layers;
* `Options.status_build_iff`: when a build succeeds;
* `options_lie_over_the_file_and_the_file_over_the_defaults`: the whole program.
-/

namespace TokenSheets

open Decimal (NotNan)

variable {shell : Shell} {options : Options} {store : Store}

/-! ### The file -/

/-- **The file that is read**: the one that is named, or the usual one if anything stands there. -/
inductive Options.Names (options : Options) (store : Store) : Path → Prop
  | named {path : Path} (given : options.config = some path) : Names options store path
  | usual (unnamed : options.config = none) (there : store.get? ["design-tokens.toml"] ≠ none) :
    Names options store ⟨"design-tokens.toml"⟩

/-- **What is found in the place of the configuration file.** -/
inductive Options.Finds (options : Options) (store : Store) :
    Except ConfigError (Entries String Toml) → Prop
  /-- No file is named, and the usual one is not there. -/
  | nothing (unnamed : options.config = none)
    (missing : store.get? ["design-tokens.toml"] = none) : Finds options store (.ok [])
  | unreadable {path : Path} {cause : ReadFault} (names : options.Names store path)
    (unread : store.loadText path = .error cause) :
    Finds options store (.error (.unreadable path cause))
  /-- The text is no document, or not that of a configuration. -/
  | malformed {path : Path} {text : String} (names : options.Names store path)
    (read : store.loadText path = .ok text) (broken : Config.read? text = none) :
    Finds options store (.error (.malformed path text))
  | document {path : Path} {text : String} {fields : Entries String Toml} {config : Config}
    (names : options.Names store path) (read : store.loadText path = .ok text)
    (document : Toml.read? text = some fields) (fits : Config.ofToml? fields = some config) :
    Finds options store (.ok fields)

/-- **Both lengths are above zero** once the three layers are put together. -/
def Options.Suits (options : Options) (fields : Entries String Toml) : Prop :=
  (options.layered fields).scale.baseFontSize > 0.0 ∧
    (options.layered fields).scale.baseScreenWidth > 0.0

instance (options : Options) (fields : Entries String Toml) : Decidable (options.Suits fields) :=
  inferInstanceAs (Decidable (_ ∧ _))

theorem Store.isThere_defaultPath :
    store.isThere Config.defaultPath = true ↔ store.get? ["design-tokens.toml"] ≠ none := by
  have hlocate : store.locate Config.defaultPath = .ok (.child [] "design-tokens.toml") := by
    rw [locate_concat (by decide : Config.defaultPath.segments = [] ++ ["design-tokens.toml"])
      (by decide)]
    rfl
  constructor
  · intro hthere hnone
    have hmissing := ((isMissing_iff_of_child hlocate).mpr hnone).isThere_eq
    rw [hthere] at hmissing
    cases hmissing
  · intro hsome
    rw [isThere, Bool.or_eq_true, readFile, directory, hlocate]
    rcases hget : store.get? ["design-tokens.toml"] with _ | content | _
    · exact absurd hget hsome
    · left
      simp only [bind, Except.bind, List.nil_append, hget]
      rfl
    · right
      simp only [bind, Except.bind, enter, List.nil_append, hget]
      rfl

theorem Config.loadOrDefault_of_names {path : Path} (h : options.Names store path) :
    Config.loadOrDefault store options.config = Config.load store path := by
  cases h with
  | named given => rw [given, Config.loadOrDefault]
  | usual unnamed there =>
    rw [unnamed, Config.loadOrDefault, if_pos (Store.isThere_defaultPath.mpr there)]
    rfl

namespace Options

theorem exists_finds (options : Options) (store : Store) : ∃ found, options.Finds store found := by
  have hnamed : ∀ path, options.Names store path → ∃ found, options.Finds store found := by
    intro path hnames
    rcases hread : store.loadText path with cause | text
    · exact ⟨_, .unreadable hnames hread⟩
    · rcases hdocument : Toml.read? text with _ | fields
      · refine ⟨_, .malformed hnames hread ?_⟩
        rw [Config.read?, hdocument, Option.bind_none]
      · rcases hfits : Config.ofToml? fields with _ | config
        · refine ⟨_, .malformed hnames hread ?_⟩
          rw [Config.read?, hdocument, Option.bind_some, hfits]
        · exact ⟨_, .document hnames hread hdocument hfits⟩
  rcases hconfig : options.config with _ | path
  · by_cases hthere : store.get? ["design-tokens.toml"] = none
    · exact ⟨_, .nothing hconfig hthere⟩
    · exact hnamed _ (.usual hconfig hthere)
  · exact hnamed path (.named hconfig)

/-- **What is found** is what the configuration is read from. -/
theorem loadOrDefault_of_finds {found : Except ConfigError (Entries String Toml)}
    (h : options.Finds store found) :
    (∃ error, found = .error error ∧
        Config.loadOrDefault store options.config = .error error) ∨
      ∃ fields config, found = .ok fields ∧ Config.ofToml? fields = some config ∧
        Config.loadOrDefault store options.config = .ok config := by
  cases h with
  | nothing unnamed missing =>
    refine .inr ⟨[], {}, rfl, rfl, ?_⟩
    have hmissing : ¬ store.isThere Config.defaultPath = true :=
      fun h => Store.isThere_defaultPath.mp h missing
    rw [unnamed, Config.loadOrDefault, if_neg hmissing]
  | unreadable names unread =>
    refine .inl ⟨_, rfl, ?_⟩
    rw [Config.loadOrDefault_of_names names, Config.load, unread]
  | malformed names read broken =>
    refine .inl ⟨_, rfl, ?_⟩
    rw [Config.loadOrDefault_of_names names, Config.load, read]
    simp only [broken]
  | @document _ text fields config names read document fits =>
    refine .inr ⟨fields, config, rfl, fits, ?_⟩
    have hconfig : Config.read? text = some config := by
      rw [Config.read?, document, Option.bind_some, fits]
    rw [Config.loadOrDefault_of_names names, Config.load, read]
    simp only [hconfig]

theorem configIn_of_error {error : ConfigError} (h : options.Finds store (.error error)) :
    options.configIn store = .error error := by
  obtain ⟨error', herror, hload⟩ | ⟨_, _, hfound, -⟩ := loadOrDefault_of_finds h
  · obtain rfl := Except.error.inj herror
    rw [configIn, hload]
    rfl
  · cases hfound

/-- **The three layers are judged** when they are put together, and not before. -/
theorem configIn_of_finds {fields : Entries String Toml} (h : options.Finds store (.ok fields)) :
    options.configIn store =
      if options.Suits fields then .ok (options.layered fields)
      else .error (.invalidScale (options.layered fields).scale) := by
  obtain ⟨_, herror, -⟩ | ⟨fields', config, hfields, hread, hload⟩ := loadOrDefault_of_finds h
  · cases herror
  · obtain rfl := Except.ok.inj hfields
    have hvalid : (options.layered fields).scale.isPositive = true ↔ options.Suits fields :=
      Scale.isPositive_iff
    rw [configIn, hload]
    simp only [bind, Except.bind, override_ofToml? hread, Config.validate, hvalid]
    split_ifs <;> rfl

theorem configIn_eq_ok_iff {config : Config} : options.configIn store = .ok config ↔
    ∃ fields, options.Finds store (.ok fields) ∧ options.Suits fields ∧
      config = options.layered fields := by
  constructor
  · intro h
    obtain ⟨error | fields, hfound⟩ := options.exists_finds store
    · rw [configIn_of_error hfound] at h
      cases h
    · rw [configIn_of_finds hfound] at h
      split_ifs at h with hsuits
      exact ⟨fields, hfound, hsuits, (Except.ok.inj h).symm⟩
  · rintro ⟨fields, hfound, hsuits, rfl⟩
    rw [configIn_of_finds hfound, if_pos hsuits]

theorem finds_of_missing {path : Path} (given : options.config = some path)
    (missing : store.isThere path = false) :
    ∃ cause, options.Finds store (.error (.unreadable path cause)) := by
  rw [Store.isThere, Bool.or_eq_false_iff] at missing
  rcases hread : store.readFile path with fault | content
  · refine ⟨.path fault, .unreadable (.named given) ?_⟩
    rw [Store.loadText, hread]
  · simp [hread, Except.isOk, Except.toBool] at missing

end Options

/-! ### The program -/

section Program

variable [Name.Transliteration] {schedule : Schedule} {config : Config} {error : ConfigError}

theorem Options.build_of_ok (h : options.configIn store = .ok config) :
    CommandLine.build shell schedule options store =
      ((runAlong shell schedule config store).1,
        .ran (runAlong shell schedule config store).2) := by
  rw [CommandLine.build, h]

theorem Options.build_of_error (h : options.configIn store = .error error) :
    CommandLine.build shell schedule options store = (store, .unconfigured error) := by
  rw [CommandLine.build, h]

/-- **A build succeeds** if there is a configuration and every namespace was built. -/
theorem Options.status_build_iff :
    (CommandLine.build shell schedule options store).2.status = .success ↔
      ∃ config, options.configIn store = .ok config ∧
        (runAlong shell schedule config store).2.built =
          Entries.keys (readTree store config.source).namespaces := by
  rcases hconfig : options.configIn store with error | config
  · rw [Options.build_of_error hconfig]
    simp [Verdict.status]
  · rw [Options.build_of_ok hconfig]
    simp only [Verdict.status, Except.ok.injEq, exists_eq_left', ite_eq_left_iff, reduceCtorEq,
      imp_false, not_not]
    exact isSuccess_runAlong_iff shell schedule config store

end Program

/-- **The options lie over the file, and the file over the defaults.** In the place of the
configuration file there is always something to be found, and a file that is named but missing is
an error. An error that is found is the one of the program; from fields the three layers are put
together, and then both lengths must be above zero, which makes them numbers. Without a
configuration the program fails and changes nothing. It succeeds if and only if there is one and
every namespace of the main document was built, in whatever order the builds take turns. -/
theorem options_lie_over_the_file_and_the_file_over_the_defaults [Name.Transliteration]
    (shell : Shell) (schedule : Schedule) (options : Options) (store : Store) :
    let outcome := CommandLine.build shell schedule options store
    (∃ found, options.Finds store found) ∧
    (∀ path, options.config = some path → store.isThere path = false →
      ∃ cause, options.Finds store (.error (.unreadable path cause))) ∧
    (∀ error, options.Finds store (.error error) → options.configIn store = .error error) ∧
    (∀ fields, options.Finds store (.ok fields) → options.configIn store =
      if options.Suits fields then .ok (options.layered fields)
      else .error (.invalidScale (options.layered fields).scale)) ∧
    (∀ fields, options.Suits fields → NotNan (options.layered fields).scale.baseFontSize ∧
      NotNan (options.layered fields).scale.baseScreenWidth) ∧
    (∀ error, options.configIn store = .error error →
      outcome = (store, .unconfigured error) ∧ outcome.2.status = .failure) ∧
    (∀ config, options.configIn store = .ok config →
      outcome = ((runAlong shell schedule config store).1,
        .ran (runAlong shell schedule config store).2)) ∧
    (outcome.2.status = .success ↔ ∃ fields, options.Finds store (.ok fields) ∧
      options.Suits fields ∧ (runAlong shell schedule (options.layered fields) store).2.built =
        Entries.keys (readTree store (options.layered fields).source).namespaces) ∧
    ∀ arguments, Invocation.ofArguments arguments = .build options →
      CommandLine.run shell schedule arguments store = outcome := by
  intro outcome
  refine ⟨options.exists_finds store, fun path => Options.finds_of_missing,
    fun error => Options.configIn_of_error, fun fields => Options.configIn_of_finds,
    fun fields hsuits => ⟨Decimal.notNan_of_pos hsuits.1, Decimal.notNan_of_pos hsuits.2⟩,
    fun error herror => ?_, fun config => Options.build_of_ok, ?_, fun arguments harguments => ?_⟩
  · have houtcome : outcome = (store, .unconfigured error) := Options.build_of_error herror
    exact ⟨houtcome, by rw [houtcome, Verdict.status]⟩
  · rw [Options.status_build_iff]
    constructor
    · rintro ⟨config, hconfig, hbuilt⟩
      obtain ⟨fields, hfound, hsuits, rfl⟩ := Options.configIn_eq_ok_iff.mp hconfig
      exact ⟨fields, hfound, hsuits, hbuilt⟩
    · rintro ⟨fields, hfound, hsuits, hbuilt⟩
      exact ⟨_, Options.configIn_eq_ok_iff.mpr ⟨fields, hfound, hsuits, rfl⟩, hbuilt⟩
  · rw [CommandLine.run, harguments]

section

attribute [local instance] Name.Transliteration.ascii

/-- **An option repairs a file**, and breaks the defaults: a file that sets the font size to zero
keeps the program from building unless an option sets another size, and without a file an option
that sets it to zero does. -/
theorem options_lie_over_the_file_and_the_file_over_the_defaults_repaired :
    let shell : Shell := ⟨fun _ store => (store, .exited 0)⟩
    let store : Store := { entries := [(["design-tokens.toml"],
      .file "source = \"a.json\"\n[units]\nbase_font_size = 0\n".toUTF8)] }
    let repairing : Options := { baseFontSize := some 10.0 }
    let breaking : Options := { baseFontSize := some 0.0 }
    (CommandLine.build shell [0] {} store).2.status = .failure ∧
    (CommandLine.build shell [0] {} store).1 = store ∧
    (CommandLine.build shell [0] repairing store).2.status = .success ∧
    (∃ config, repairing.configIn store = .ok config ∧ config.source = ⟨"a.json"⟩) ∧
    (CommandLine.build shell [0] {} .empty).2.status = .success ∧
    (CommandLine.build shell [0] breaking .empty).2.status = .failure := by
  intro shell store repairing breaking
  let fields : Entries String Toml :=
    [("source", .text "a.json"), ("units", .table [("base_font_size", .whole 0)])]
  have hread : store.loadText ⟨"design-tokens.toml"⟩ =
      .ok "source = \"a.json\"\n[units]\nbase_font_size = 0\n" := by
    have hfile : store.readFile ⟨"design-tokens.toml"⟩ =
        .ok "source = \"a.json\"\n[units]\nbase_font_size = 0\n".toUTF8 := rfl
    have htext : String.fromUTF8? "source = \"a.json\"\n[units]\nbase_font_size = 0\n".toUTF8 =
        some "source = \"a.json\"\n[units]\nbase_font_size = 0\n" :=
      dif_pos (String.isValidUTF8 _)
    simp only [Store.loadText, hfile, htext]
  have hfound : ∀ options : Options, options.config = none → options.Finds store (.ok fields) :=
    fun options hnone => .document (.usual hnone (by decide)) hread (by cbv) rfl
  have hnothing : ∀ options : Options, options.config = none → options.Finds .empty (.ok []) :=
    fun options hnone => .nothing hnone rfl
  obtain ⟨-, -, -, hjudged, -, hfailed, -, -, -⟩ :=
    options_lie_over_the_file_and_the_file_over_the_defaults shell [0] {} store
  obtain ⟨-, -, -, hrepaired, -, -, -, hsuccess, -⟩ :=
    options_lie_over_the_file_and_the_file_over_the_defaults shell [0] repairing store
  obtain ⟨-, -, -, -, -, -, -, hsuccess', -⟩ :=
    options_lie_over_the_file_and_the_file_over_the_defaults shell [0] {} .empty
  obtain ⟨-, -, -, hbroken, -, hfailed', -, -, -⟩ :=
    options_lie_over_the_file_and_the_file_over_the_defaults shell [0] breaking .empty
  have hrefused := hfailed _ ((hjudged fields (hfound {} rfl)).trans (if_neg (by decide +kernel)))
  have hsuits : repairing.Suits fields := by decide +kernel
  have hmissing : readTree store ⟨"a.json"⟩ = {} := rfl
  -- neither store has a main document, so there is nothing to build
  have hbuilt : ∀ {config : Config} {store : Store}, readTree store config.source = {} →
      (runAlong shell [0] config store).2.built =
        Entries.keys (readTree store config.source).namespaces := fun hempty => by
    rw [runAlong_of_readTree_empty hempty, hempty]
    rfl
  refine ⟨hrefused.2, congrArg Prod.fst hrefused.1, ?_, ?_, ?_, ?_⟩
  · exact hsuccess.mpr ⟨fields, hfound repairing rfl, hsuits, hbuilt hmissing⟩
  · exact ⟨_, (hrepaired fields (hfound repairing rfl)).trans (if_pos hsuits), rfl⟩
  · exact hsuccess'.mpr ⟨[], hnothing {} rfl, by decide +kernel, hbuilt rfl⟩
  · exact (hfailed' _ ((hbroken [] (hnothing breaking rfl)).trans
      (if_neg (by decide +kernel)))).2

end

end TokenSheets
