import SchemaDesign.Proofs.Command.Action
import SchemaDesign.Proofs.Command.Arguments
import SchemaDesign.Proofs.Correspondence.Renaming
import SchemaDesign.Proofs.Settings.Refusal

/-!
# Choices in place of settings

What is chosen for a command stands in for the settings.  When the dialect, the inheritance kind and
the format are chosen, the settings for them show in one place only: a name that is not known is
refused all the same.  So two runs under settings that agree in the rest have the same effect
exactly when both settings are accepted or both are refused for the same reason.

The text of a refusal is told from all other errors by its beginning, which is why settings that are
accepted never look like refused ones.
-/

namespace SchemaDesign

namespace Command

variable {settings settings' : Settings} {error : SettingsError}

/-! ### Texts of refusals -/

def refusal (error : SettingsError) : String :=
  "Configuration error" ++ ": " ++ error.message

def TellsRefusal (text : String) : Prop :=
  ∃ error : SettingsError, error.IsRefusal ∧ text = refusal error

theorem refusal_inj {error error' : SettingsError} (h : error.IsRefusal) (h' : error'.IsRefusal)
    (hsame : refusal error = refusal error') : error = error' :=
  h.message_inj h' ((String.append_right_inj _).mp hsame)

theorem TellsRefusal.starts {text : String} (h : TellsRefusal text) :
    "Configuration error: Un".toList <+: text.toList := by
  obtain ⟨error, herror, rfl⟩ := h
  unfold refusal
  cases herror <;> simp

theorem orFail_pure {α ε : Type} (heading : String) (message : ε → String) (result : Except ε α) :
    (orFail heading message (pure result) : Action (StateM Machine) α) =
      .mk (pure (result.mapError fun error => heading ++ ": " ++ message error)) := by
  rw [orFail, pure_bind]

theorem orMisconfigured_ok {α : Type} (a : α) :
    (orMisconfigured (pure (.ok a)) : Action (StateM Machine) α) = pure a := by
  rw [orMisconfigured, orFail_pure, Except.mapError]
  rfl

theorem orMisconfigured_error {α : Type} (error : SettingsError) :
    (orMisconfigured (pure (.error error)) : Action (StateM Machine) α) =
      throw (refusal error) := by
  rw [orMisconfigured, orFail_pure, Except.mapError]
  rfl

/-! ### The parts of a command -/

section Parts

variable (host : Host (StateM Machine)) (ids : IdSupply) (file : String)

/-- The script is written to where the settings say, or printed. -/
def deliver (settings : Settings) (dialect : Dialect) (script : String) :
    Action (StateM Machine) String := do
  let directory ← orMisconfigured do
    return settings.outputDirectory (← variablesOf host (settings.directory.getD ""))
  match directory with
  | some directory => writeScript host directory file dialect script
  | none => return script ++ "\n"

/-- The compilation of a file when it is settled how to do it. -/
def compileWith (settings : Settings) (options : CompileOptions) (format : OutputFormat) :
    Action (StateM Machine) String := do
  let design ← loadDesign host file
  host.log (design.compilationReport ids options)
  let compiled ← orFail "Compilation error" CompilationError.message
    (pure ((design.compile ids options).mapError .normalization))
  deliver host file settings compiled.dialect (presented compiled file format settings.separator)

def printNormal (design : Design) : Action (StateM Machine) String := do
  host.log (design.normalizationReport ids)
  let normal ← orFail "Normalization error" InheritanceCycle.message (pure (design.normalize ids))
  return normal.pretty ++ "\n"

variable {host ids file} {dialect : Dialect} {kind : InheritanceKind} {format : OutputFormat}

theorem compileFile_of_accepted {standing : CompileOptions}
    (h : settings.compileOptions = .ok standing) :
    compileFile host ids settings file ⟨some dialect, some kind, some format⟩ =
      compileWith host ids file settings ⟨dialect, some kind⟩ format := by
  rw [compileFile, h, orMisconfigured_ok, pure_bind]
  rfl

theorem compileFile_of_refused {choices : Choices} (h : settings.compileOptions = .error error) :
    compileFile host ids settings file choices = throw (refusal error) := by
  rw [compileFile, h, orMisconfigured_error]
  rfl

theorem normalizeFile_eq :
    normalizeFile host ids settings file (some kind) = (do
      let design ← loadDesign host file
      let _ ← orMisconfigured (pure settings.inheritance)
      printNormal host ids (design.withInheritance (some kind))) :=
  rfl

end Parts

/-! ### Two runs of a command -/

section Runs

variable {environment environment' : Environment} {verbose : Bool} {files : FileTree}
variable {ids ids' : IdSupply} {file : String}

/-- The variables that the directory refers to have the same values. -/
def SameDirectory (settings : Settings) (environment environment' : Environment) : Prop :=
  ∀ name ∈ Expansion.names (settings.directory.getD ""),
    environment.value? name = environment'.value? name

theorem alike_writeScript (directory : String) (dialect : Dialect) (script : String) :
    Alike files (· = ·)
      (writeScript (Machine.hostFor environment verbose) directory file dialect script)
      (writeScript (Machine.hostFor environment' verbose) directory file dialect script) := by
  unfold writeScript
  simp only [Machine.hostFor_createDirectories, Machine.hostFor_writeFile]
  refine (Alike.changeFiles _).orFail _ _ |>.bind fun _ _ _ _ => ?_
  refine (Alike.changeFiles _).orFail _ _ |>.bind fun _ _ _ _ => ?_
  exact .pure (.ok rfl)

theorem alike_deliver (hdirectory : settings.directory = settings'.directory)
    (hvariables : SameDirectory settings environment environment') (dialect : Dialect)
    (script : String) :
    Alike files (· = ·)
      (deliver (Machine.hostFor environment verbose) file settings dialect script)
      (deliver (Machine.hostFor environment' verbose) file settings' dialect script) := by
  unfold deliver
  rw [variablesOf_congr hvariables]
  simp only [variablesOf_hostFor, pure_bind, hdirectory, Settings.outputDirectory_congr hdirectory]
  refine (Alike.pure (.refl _)).orFail _ _ |>.bind ?_
  rintro later directory _ rfl
  cases directory with
  | some directory => exact alike_writeScript directory dialect script
  | none => exact .pure (.ok rfl)

theorem presented_eq {compiled compiled' : Compiled} (h : compiled.ShowsSame compiled')
    (format : OutputFormat) (separator : String) :
    presented compiled file format separator = presented compiled' file format separator := by
  unfold presented Compiled.script Compiled.annotatedScript
  rw [h.statements, h.dialect, h.inheritance]

theorem alike_compileWith (hdirectory : settings.directory = settings'.directory)
    (hvariables : SameDirectory settings environment environment')
    (hseparator : settings.separator = settings'.separator)
    (hids : ∀ design, files.design file = .ok design → ids.UnusedIn design ∧ ids'.UnusedIn design)
    (options : CompileOptions) (format : OutputFormat) :
    Alike files (· = ·)
      (compileWith (Machine.hostFor environment verbose) ids file settings options format)
      (compileWith (Machine.hostFor environment' verbose) ids' file settings' options format) := by
  unfold compileWith
  refine (Alike.load environment environment' verbose file).orFail _ _ |>.bind ?_
  rintro later design _ ⟨rfl, hdesign⟩
  refine (Alike.log environment environment' verbose _ _).bind fun _ _ _ _ => ?_
  obtain ⟨hunused, hunused'⟩ := hids design hdesign
  have hcompiled := (Design.designs_redrawnIds hunused hunused').compile
    (Design.supplies_renamedIds _ _ _ _) options
  refine (Alike.pure (hcompiled.mapError _)).orFail _ _ |>.bind ?_
  intro later compiled compiled' hshown
  rw [presented_eq hshown, hshown.dialect, hseparator]
  exact alike_deliver hdirectory hvariables _ _

theorem alike_compileFile {dialect : Dialect} {kind : InheritanceKind} {format : OutputFormat}
    (hrefused : RefusedAlike settings.compileOptions settings'.compileOptions)
    (hdirectory : settings.directory = settings'.directory)
    (hvariables : SameDirectory settings environment environment')
    (hseparator : settings.separator = settings'.separator)
    (hids : ∀ design, files.design file = .ok design →
      ids.UnusedIn design ∧ ids'.UnusedIn design) :
    Alike files (· = ·)
      (compileFile (Machine.hostFor environment verbose) ids settings file
        ⟨some dialect, some kind, some format⟩)
      (compileFile (Machine.hostFor environment' verbose) ids' settings' file
        ⟨some dialect, some kind, some format⟩) := by
  cases hoptions : settings.compileOptions with
  | error error =>
      rw [compileFile_of_refused hoptions, compileFile_of_refused ((hrefused error).mp hoptions)]
      exact .pure (.error _)
  | ok standing =>
      obtain ⟨standing', hoptions'⟩ := hrefused.exists_ok hoptions
      rw [compileFile_of_accepted hoptions, compileFile_of_accepted hoptions']
      exact alike_compileWith hdirectory hvariables hseparator hids _ _

theorem alike_normalizeFile {r : Design → Design → Prop} {kind : InheritanceKind}
    (hrefused : ∀ design, files.design file = .ok design →
      RefusedAlike settings.inheritance settings'.inheritance)
    (hnormal : ∀ design, files.design file = .ok design →
      SameOutcome r ((design.withInheritance (some kind)).normalize ids)
        ((design.withInheritance (some kind)).normalize ids')) :
    Alike files
      (fun text text' => ∃ normal normal', r normal normal' ∧ text = normal.pretty ++ "\n" ∧
        text' = normal'.pretty ++ "\n")
      (normalizeFile (Machine.hostFor environment verbose) ids settings file (some kind))
      (normalizeFile (Machine.hostFor environment' verbose) ids' settings' file (some kind)) := by
  rw [normalizeFile_eq, normalizeFile_eq]
  refine (Alike.load environment environment' verbose file).orFail _ _ |>.bind ?_
  rintro later design _ ⟨rfl, hdesign⟩
  have hrefused := hrefused design hdesign
  cases hinheritance : settings.inheritance with
  | error error =>
      rw [(hrefused error).mp hinheritance, orMisconfigured_error]
      exact .pure (.error _)
  | ok standing =>
      obtain ⟨standing', hinheritance'⟩ := hrefused.exists_ok hinheritance
      rw [hinheritance', orMisconfigured_ok, orMisconfigured_ok, pure_bind, pure_bind]
      refine (Alike.log environment environment' verbose _ _).bind fun _ _ _ _ => ?_
      refine (Alike.pure (hnormal design hdesign)).orFail _ _ |>.bind fun _ normal normal' h => ?_
      exact .pure (.ok ⟨normal, normal', h, rfl, rfl⟩)

/-! ### Errors of a command -/

variable {host : Host (StateM Machine)}

theorem failsOnly_loadDesign : FailsOnly (¬TellsRefusal ·) (loadDesign host file) := by
  refine .orFail fun machine e _ htells => ?_
  simpa using htells.starts

theorem failsOnly_writeScript (directory : String) (dialect : Dialect) (script : String) :
    FailsOnly (¬TellsRefusal ·) (writeScript host directory file dialect script) := by
  refine .bind ?_ fun _ => .bind ?_ fun _ => .pure _
  · refine .orFail fun machine e _ htells => ?_
    simpa using htells.starts
  · refine .orFail fun machine e _ htells => ?_
    simpa using htells.starts

theorem failsOnly_deliver (dialect : Dialect) (script : String) :
    FailsOnly (¬TellsRefusal ·)
      (deliver (Machine.hostFor environment verbose) file settings dialect script) := by
  refine .bind ?_ fun directory => ?_
  · refine .orFail fun machine error herror htells => ?_
    rw [variablesOf_hostFor, pure_bind] at herror
    obtain ⟨name, rfl⟩ := Settings.missingVariable_of_outputDirectory herror
    simpa using htells.starts
  · cases directory with
    | some directory => exact failsOnly_writeScript directory dialect script
    | none => exact .pure _

theorem failsOnly_compileWith (options : CompileOptions) (format : OutputFormat) :
    FailsOnly (¬TellsRefusal ·)
      (compileWith (Machine.hostFor environment verbose) ids file settings options format) := by
  refine failsOnly_loadDesign.bind fun design => ?_
  refine (FailsOnly.log environment verbose _).bind fun _ => ?_
  refine .bind ?_ fun compiled => failsOnly_deliver _ _
  refine .orFail fun machine e _ htells => ?_
  simpa using htells.starts

theorem failsOnly_printNormal (design : Design) :
    FailsOnly (¬TellsRefusal ·)
      (printNormal (Machine.hostFor environment verbose) ids design) := by
  refine (FailsOnly.log environment verbose _).bind fun _ => ?_
  refine .bind ?_ fun normal => .pure _
  refine .orFail fun machine e _ htells => ?_
  simpa using htells.starts

/-! ### Effects -/

variable {machine : Machine} {dialect : Dialect} {kind : InheritanceKind} {format : OutputFormat}

/-- What a command leaves to see: its outcome and the files. -/
def effect (environment : Environment) (verbose : Bool) (ids : IdSupply) (settings : Settings)
    (command : Command) (machine : Machine) : Outcome × FileTree :=
  let run := runOn machine (command.perform (Machine.hostFor environment verbose) ids settings)
  (.ofResult run.1, run.2.files)

/-- The two are the same, or both print a normal design and these correspond. -/
def PrintsSame (c : Correspondence) (effect effect' : Outcome × FileTree) : Prop :=
  effect = effect' ∨ ∃ normal normal' files, c.Designs normal normal' ∧
    effect = (.ofResult (.ok (normal.pretty ++ "\n")), files) ∧
    effect' = (.ofResult (.ok (normal'.pretty ++ "\n")), files)

theorem ofResult_inj {result result' : Except String String} :
    Outcome.ofResult result = Outcome.ofResult result' ↔ result = result' := by
  cases result <;> cases result' <;> simp [Outcome.ofResult]

theorem effect_eq_of_alike {command : Command}
    (h : Alike machine.files (· = ·)
      (command.perform (Machine.hostFor environment verbose) ids settings)
      (command.perform (Machine.hostFor environment' verbose) ids' settings')) :
    effect environment verbose ids settings command machine =
      effect environment' verbose ids' settings' command machine := by
  obtain ⟨hresults, hfiles⟩ := h machine machine rfl rfl
  simp only [effect, hresults.eq, hfiles]

theorem printsSame_of_alike {c : Correspondence} {command : Command}
    (h : Alike machine.files
      (fun text text' => ∃ normal normal', c.Designs normal normal' ∧
        text = normal.pretty ++ "\n" ∧ text' = normal'.pretty ++ "\n")
      (command.perform (Machine.hostFor environment verbose) ids settings)
      (command.perform (Machine.hostFor environment verbose) ids' settings')) :
    PrintsSame c (effect environment verbose ids settings command machine)
      (effect environment verbose ids' settings' command machine) := by
  obtain ⟨hresults, hfiles⟩ := h machine machine rfl rfl
  simp only [effect, hfiles]
  generalize (runOn machine (command.perform _ ids settings)).1 = result,
    (runOn machine (command.perform _ ids' settings')).1 = result' at hresults
  cases hresults with
  | error text => exact .inl rfl
  | ok hprinted =>
      obtain ⟨normal, normal', hdesigns, rfl, rfl⟩ := hprinted
      exact .inr ⟨normal, normal', _, hdesigns, rfl, rfl⟩

/-! ### Runs of the program -/

/-- What the program leaves to see. -/
def programEffect (environment : Environment) (ids : IdSupply) (arguments : List String)
    (machine : Machine) : Outcome × FileTree :=
  let ran := (run (Machine.host environment) ids arguments).run machine
  (ran.1, ran.2.files)

/-- The arguments choose a command, and the settings that are found complete it. -/
theorem programEffect_eq {arguments : List String} {command : Command}
    (hparse : Arguments.parse arguments = .ok (.perform verbose command))
    (hfind : (Settings.find (Machine.hostFor environment verbose)).run machine =
      (.ok settings, machine)) :
    programEffect environment ids arguments machine =
      effect environment verbose ids settings command machine := by
  have hsettings : runOn machine
      (orMisconfigured (Settings.find (Machine.hostFor environment verbose))) =
        (.ok settings, machine) := by
    have hrun : runOn machine (.mk (Settings.find (Machine.hostFor environment verbose))) =
        (.ok settings, machine) := hfind
    rw [orMisconfigured, runOn_orFail, hrun]
    rfl
  unfold programEffect run
  rw [hparse]
  change (let ran := runOn machine (do
      let settings ← orMisconfigured (Settings.find (Machine.hostFor environment verbose))
      command.perform (Machine.hostFor environment verbose) ids settings)
    (Outcome.ofResult ran.1, ran.2.files)) = _
  rw [runOn_bind, hsettings]
  rfl

/-- With a value for each option the program performs the command with these choices. -/
theorem programEffect_of_options {value : String} (hvalue : Arguments.isValue file)
    (hfile : file ≠ "") (hkind : (value, kind) ∈ Arguments.inheritanceValues) (dialect : Dialect)
    (format : OutputFormat) (ids : IdSupply)
    (hfind : (Settings.find (Machine.hostFor environment false)).run machine =
      (.ok settings, machine)) :
    programEffect environment ids
        ["compile", file, "-d", dialect.name, "-i", value, "-o", format.name] machine =
      effect environment false ids settings
        (.compile file ⟨some dialect, some kind, some format⟩) machine ∧
    programEffect environment ids ["normalize", file, "-i", value] machine =
      effect environment false ids settings (.normalize file (some kind)) machine :=
  ⟨programEffect_eq (Arguments.parse_compile hvalue hfile dialect hkind format) hfind,
    programEffect_eq (Arguments.parse_normalize hvalue hfile hkind) hfind⟩

/-! ### Outcomes of refused settings -/

theorem runOn_loadDesign {design : Design} (hdesign : machine.files.design file = .ok design) :
    runOn machine (loadDesign (Machine.hostFor environment verbose) file) =
      (.ok design, machine) := by
  rw [loadDesign, runOn_orFail, runOn_load, hdesign]
  rfl

/-- A compilation ends with a refusal only if its settings are refused. -/
theorem compile_refusal_iff (herror : error.IsRefusal) :
    (effect environment verbose ids settings
      (.compile file ⟨some dialect, some kind, some format⟩) machine).1 =
        .ofResult (.error (refusal error)) ↔ settings.compileOptions = .error error := by
  rw [effect, perform, ofResult_inj]
  cases hoptions : settings.compileOptions with
  | error other =>
      rw [compileFile_of_refused hoptions]
      constructor
      · intro hrefused
        have hsame : refusal other = refusal error := Except.error.inj hrefused
        rw [refusal_inj (Settings.isRefusal_of_compileOptions hoptions) herror hsame]
      · rintro ⟨⟩
        rfl
  | ok standing =>
      rw [compileFile_of_accepted hoptions]
      refine iff_of_false (fun hrefused => ?_) nofun
      exact failsOnly_compileWith _ _ machine _ hrefused ⟨error, herror, rfl⟩

/-- A normalization ends with a refusal only if its setting is refused, and then always if there is
something to normalize. -/
theorem normalize_refusal_iff {design : Design} (hdesign : machine.files.design file = .ok design)
    (herror : error.IsRefusal) :
    (effect environment verbose ids settings (.normalize file (some kind)) machine).1 =
        .ofResult (.error (refusal error)) ↔ settings.inheritance = .error error := by
  rw [effect, perform, ofResult_inj, normalizeFile_eq, runOn_bind, runOn_loadDesign hdesign]
  dsimp only
  cases hinheritance : settings.inheritance with
  | error other =>
      rw [orMisconfigured_error]
      constructor
      · intro hrefused
        have hsame : refusal other = refusal error := Except.error.inj hrefused
        rw [refusal_inj (Settings.isRefusal_of_inheritance hinheritance) herror hsame]
      · rintro ⟨⟩
        rfl
  | ok standing =>
      rw [orMisconfigured_ok, pure_bind]
      refine iff_of_false (fun hrefused => ?_) nofun
      exact failsOnly_printNormal _ machine _ hrefused ⟨error, herror, rfl⟩

/-! ### Two effects -/

theorem compile_effect_eq_iff (hdirectory : settings.directory = settings'.directory)
    (hvariables : SameDirectory settings environment environment')
    (hseparator : settings.separator = settings'.separator)
    (hids : ∀ design, machine.files.design file = .ok design →
      ids.UnusedIn design ∧ ids'.UnusedIn design) :
    effect environment verbose ids settings
        (.compile file ⟨some dialect, some kind, some format⟩) machine =
      effect environment' verbose ids' settings'
        (.compile file ⟨some dialect, some kind, some format⟩) machine ↔
      RefusedAlike settings.compileOptions settings'.compileOptions := by
  constructor
  · intro hsame
    refine refusedAlike_of_refusals (fun _ => Settings.isRefusal_of_compileOptions)
      (fun _ => Settings.isRefusal_of_compileOptions) fun error herror => ?_
    have houtcome := congrArg (fun effect : Outcome × FileTree =>
      effect.1 = .ofResult (.error (refusal error))) hsame
    rwa [compile_refusal_iff herror, compile_refusal_iff herror, eq_iff_iff] at houtcome
  · intro hrefused
    exact effect_eq_of_alike (alike_compileFile hrefused hdirectory hvariables hseparator hids)

theorem normalize_effect_eq_iff :
    effect environment verbose ids settings (.normalize file (some kind)) machine =
      effect environment' verbose ids settings' (.normalize file (some kind)) machine ↔
      ∀ design, machine.files.design file = .ok design →
        RefusedAlike settings.inheritance settings'.inheritance := by
  constructor
  · intro hsame design hdesign
    refine refusedAlike_of_refusals (fun _ => Settings.isRefusal_of_inheritance)
      (fun _ => Settings.isRefusal_of_inheritance) fun error herror => ?_
    have houtcome := congrArg (fun effect : Outcome × FileTree =>
      effect.1 = .ofResult (.error (refusal error))) hsame
    rwa [normalize_refusal_iff hdesign herror, normalize_refusal_iff hdesign herror, eq_iff_iff]
      at houtcome
  · intro hrefused
    refine effect_eq_of_alike ((alike_normalizeFile hrefused fun _ _ => .refl _).imp ?_)
    rintro _ _ ⟨normal, _, rfl, rfl, rfl⟩
    rfl

/-- With everything chosen, the settings for the dialect, the inheritance kind and the format show
only when they are refused.  Under two settings with the same directory and separator a compilation
has the same effect exactly when both are accepted or both are refused for the same reason, whatever
ids are drawn.  The same goes for the inheritance kind and a normalization, unless there is no
design to normalize; with other ids drawn it prints a corresponding design. -/
theorem effects_of_chosen_options (environment : Environment) (verbose : Bool) (dialect : Dialect)
    (kind : InheritanceKind) (format : OutputFormat)
    (hdirectory : settings.directory = settings'.directory)
    (hseparator : settings.separator = settings'.separator)
    (hids : ∀ design, machine.files.design file = .ok design →
      ids.UnusedIn design ∧ ids'.UnusedIn design) :
    (effect environment verbose ids settings
        (.compile file ⟨some dialect, some kind, some format⟩) machine =
      effect environment verbose ids' settings'
        (.compile file ⟨some dialect, some kind, some format⟩) machine ↔
      RefusedAlike settings.compileOptions settings'.compileOptions) ∧
    (effect environment verbose ids settings (.normalize file (some kind)) machine =
      effect environment verbose ids settings' (.normalize file (some kind)) machine ↔
      ∀ design, machine.files.design file = .ok design →
        RefusedAlike settings.inheritance settings'.inheritance) ∧
    (∀ design (hdesign : machine.files.design file = .ok design),
      RefusedAlike settings.inheritance settings'.inheritance →
        PrintsSame (Design.redrawnIds (hids design hdesign).1 (hids design hdesign).2)
          (effect environment verbose ids settings (.normalize file (some kind)) machine)
          (effect environment verbose ids' settings' (.normalize file (some kind)) machine)) := by
  refine ⟨compile_effect_eq_iff hdirectory (fun _ _ => rfl) hseparator hids,
    normalize_effect_eq_iff, ?_⟩
  intro design hdesign hrefused
  refine printsSame_of_alike (alike_normalizeFile (fun _ _ => hrefused) fun other hother => ?_)
  obtain rfl : design = other := Except.ok.inj (hdesign.symm.trans hother)
  obtain ⟨hunused, hunused'⟩ := hids design hdesign
  exact ((Design.designs_redrawnIds hunused hunused').withInheritance (some kind)).normalize
    (Design.supplies_renamedIds _ _ _ _)

/-- The program itself, called with a value for each option in two environments where it finds these
settings, leaves the same to see under the same conditions. -/
theorem programEffects_of_chosen_options {value : String} (hvalue : Arguments.isValue file)
    (hfile : file ≠ "") (hkind : (value, kind) ∈ Arguments.inheritanceValues)
    (dialect : Dialect) (format : OutputFormat)
    (hfind : (Settings.find (Machine.hostFor environment false)).run machine =
      (.ok settings, machine))
    (hfind' : (Settings.find (Machine.hostFor environment' false)).run machine =
      (.ok settings', machine))
    (hdirectory : settings.directory = settings'.directory)
    (hvariables : SameDirectory settings environment environment')
    (hseparator : settings.separator = settings'.separator)
    (hids : ∀ design, machine.files.design file = .ok design →
      ids.UnusedIn design ∧ ids'.UnusedIn design) :
    (programEffect environment ids
        ["compile", file, "-d", dialect.name, "-i", value, "-o", format.name] machine =
      programEffect environment' ids'
        ["compile", file, "-d", dialect.name, "-i", value, "-o", format.name] machine ↔
      RefusedAlike settings.compileOptions settings'.compileOptions) ∧
    (programEffect environment ids ["normalize", file, "-i", value] machine =
      programEffect environment' ids ["normalize", file, "-i", value] machine ↔
      ∀ design, machine.files.design file = .ok design →
        RefusedAlike settings.inheritance settings'.inheritance) := by
  have hrun := programEffect_of_options hvalue hfile hkind dialect format ids hfind
  have hcompile := programEffect_of_options hvalue hfile hkind dialect format ids' hfind'
  have hnormalize := programEffect_of_options hvalue hfile hkind dialect format ids hfind'
  rw [hrun.1, hrun.2, hcompile.1, hnormalize.2]
  exact ⟨compile_effect_eq_iff hdirectory hvariables hseparator hids, normalize_effect_eq_iff⟩

end Runs

/-! ### One file under several settings -/

open Design

/-- A directory with one design in it. -/
def shelf : Machine where
  files :=
    { entries := [(["pets.json"], .file
        ("\x7b\"tables\":[\x7b\"id\":\"animal\",\"name\":\"Animal\"\x7d," ++
          "\x7b\"id\":\"dog\",\"name\":\"Dog\"\x7d]\x7d"))]
      workingDirectory := [] }
  events := []

theorem design_on_shelf :
    (shelf.files.design "pets.json").toOption.map
      (fun design => (design.mentionedTables, design.mentionedColumns)) =
        some (["animal", "dog"], []) := by
  decide +kernel

theorem unusedIn_shelf {design : Design}
    (hdesign : shelf.files.design "pets.json" = .ok design) :
    hashes.UnusedIn design ∧ hashes.left.UnusedIn design := by
  obtain ⟨other, hother, hmentioned⟩ := exists_ok_of_toOption design_on_shelf
  obtain rfl : design = other := Except.ok.inj (hdesign.symm.trans hother)
  obtain ⟨htables, hcolumns⟩ := Prod.mk.inj hmentioned
  have hunused : hashes.UnusedIn design := by
    apply hashes_unusedIn
    · rw [htables]
      decide
    · rw [hcolumns]
      decide
  exact ⟨hunused, hunused.left⟩

/-- Everything that can be chosen is set. -/
def annotating : Settings :=
  { Settings.standard with
    dialectName := "pg", inheritanceName := some "class_table", format := .annotated }

/-- The dialect is not known. -/
def foreign : Settings :=
  { Settings.standard with dialectName := "oracle" }

/-- The inheritance kind is not known. -/
def joined : Settings :=
  { Settings.standard with inheritanceName := some "joined" }

theorem compileOptions_standard : Settings.standard.compileOptions = .ok ⟨.sqlite, none⟩ := by
  decide +kernel

theorem inheritance_joined : joined.inheritance = .error (.unknownInheritance "joined") := by
  decide +kernel

theorem effects_on_shelf :
    effect [] false hashes .standard
        (.compile "pets.json" ⟨some .mysql, some .singleTable, some .plain⟩) shelf =
      effect [] false hashes.left annotating
        (.compile "pets.json" ⟨some .mysql, some .singleTable, some .plain⟩) shelf ∧
    effect [] false hashes .standard (.normalize "pets.json" (some .singleTable)) shelf ≠
      effect [] false hashes joined (.normalize "pets.json" (some .singleTable)) shelf := by
  constructor
  · have hdirectory : Settings.standard.directory = annotating.directory := rfl
    have heffects := effects_of_chosen_options [] false .mysql .singleTable .plain hdirectory rfl
      fun _ => unusedIn_shelf
    refine heffects.1.mpr ?_
    have hannotating : annotating.compileOptions = .ok ⟨.postgres, some .classTable⟩ := by
      decide +kernel
    intro error
    rw [compileOptions_standard, hannotating]
    exact ⟨nofun, nofun⟩
  · intro hsame
    obtain ⟨design, hdesign, _⟩ := exists_ok_of_toOption design_on_shelf
    have hdirectory : Settings.standard.directory = joined.directory := rfl
    have heffects := effects_of_chosen_options [] false .mysql .singleTable .plain hdirectory rfl
      fun _ => unusedIn_shelf
    nomatch (heffects.2.1.mp hsame design hdesign _).mpr inheritance_joined

/-- A setting that is not known stops a command that does without it. -/
theorem not_all_settings_overridden :
    (¬∀ (environment : Environment) (verbose : Bool) (ids : IdSupply) (settings settings' : Settings)
      (file : String) (dialect : Dialect) (kind : InheritanceKind) (format : OutputFormat)
      (machine : Machine), settings.directory = settings'.directory →
      settings.separator = settings'.separator →
      effect environment verbose ids settings
          (.compile file ⟨some dialect, some kind, some format⟩) machine =
        effect environment verbose ids settings'
          (.compile file ⟨some dialect, some kind, some format⟩) machine) ∧
    ¬∀ (environment : Environment) (verbose : Bool) (ids : IdSupply) (settings settings' : Settings)
      (file : String) (kind : InheritanceKind) (machine : Machine),
      settings.format = settings'.format → settings.directory = settings'.directory →
      settings.separator = settings'.separator →
      effect environment verbose ids settings (.normalize file (some kind)) machine =
        effect environment verbose ids settings' (.normalize file (some kind)) machine := by
  constructor
  · intro hall
    have hsame := hall [] false hashes .standard foreign "pets.json" .mysql .singleTable .plain
      shelf rfl rfl
    have hdirectory : Settings.standard.directory = foreign.directory := rfl
    rw [compile_effect_eq_iff hdirectory (fun _ _ => rfl) rfl fun _ hdesign =>
      ⟨(unusedIn_shelf hdesign).1, (unusedIn_shelf hdesign).1⟩] at hsame
    have hforeign : foreign.compileOptions = .error (.unsupportedDialect "oracle") := by
      decide +kernel
    have hstandard := (hsame _).mpr hforeign
    rw [compileOptions_standard] at hstandard
    cases hstandard
  · intro hall
    have hsame := hall [] false hashes .standard joined "pets.json" .singleTable shelf rfl rfl rfl
    rw [normalize_effect_eq_iff] at hsame
    obtain ⟨design, hdesign, _⟩ := exists_ok_of_toOption design_on_shelf
    nomatch (hsame design hdesign _).mpr inheritance_joined

end Command
end SchemaDesign
