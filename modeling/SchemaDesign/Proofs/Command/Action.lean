import SchemaDesign.Command.Run
import SchemaDesign.Machine
import SchemaDesign.Proofs.Related

/-!
# Actions on a machine

Two actions that are begun on the same files are alike when they fail with the same error or have
related results, and leave the same files behind.  What stands in the logs does not count.  Actions
that are put together from alike parts are alike, so two runs of a command are compared part by
part.  In the same way it is found out part by part which errors a command can fail with.
-/

namespace SchemaDesign

variable {α β γ δ ε : Type}

/-! ### Runs -/

/-- The result of an action on a machine, and the machine after it. -/
def runOn (machine : Machine) (action : ExceptT ε (StateM Machine) α) : Except ε α × Machine :=
  action.run.run machine

theorem runOn_bind (machine : Machine) (action : ExceptT ε (StateM Machine) α)
    (next : α → ExceptT ε (StateM Machine) β) :
    runOn machine (action >>= next) =
      match runOn machine action with
      | (.ok a, later) => runOn later (next a)
      | (.error e, later) => (.error e, later) := by
  unfold runOn
  rw [ExceptT.run_bind, StateT.run_bind]
  generalize action.run.run machine = outcome
  rcases outcome with ⟨result | result, later⟩ <;> rfl

theorem runOn_orFail (machine : Machine) (heading : String) (message : ε → String)
    (result : StateM Machine (Except ε α)) :
    runOn machine (Command.orFail heading message result) =
      ((runOn machine (.mk result)).1.mapError fun error => heading ++ ": " ++ message error,
        (runOn machine (.mk result)).2) :=
  rfl

theorem runOn_changeFiles (machine : Machine) (change : FileTree → Except FileFault FileTree) :
    runOn machine (.mk (Machine.changeFiles change)) =
      match change machine.files with
      | .ok files => (.ok (), { machine with files := files })
      | .error fault => (.error fault, machine) :=
  rfl

namespace Machine

/-- The host of a command, which keeps all events or the warnings only. -/
def hostFor (environment : Environment) (verbose : Bool) : Host (StateM Machine) :=
  if verbose then host environment else (host environment).withWarningsOnly

variable (environment : Environment) (verbose : Bool)

theorem hostFor_writeFile (path text : String) :
    (hostFor environment verbose).writeFile path text =
      changeFiles fun files => files.write path text := by
  cases verbose <;> rfl

theorem hostFor_createDirectories (path : String) :
    (hostFor environment verbose).createDirectories path =
      changeFiles fun files => files.createDirectories path := by
  cases verbose <;> rfl

theorem hostFor_environment (name : String) :
    (hostFor environment verbose).environment name = pure (environment.value? name) := by
  cases verbose <;> rfl

end Machine

/-- The design that loading a file gives. -/
def FileTree.design (files : FileTree) (path : String) : Except DesignFileError Design :=
  match files.read path with
  | .ok text => (Design.ofText text).mapError .malformed
  | .error fault => .error (.unreadable path fault)

theorem runOn_load (machine : Machine) (environment : Environment) (verbose : Bool)
    (path : String) :
    runOn machine (.mk (Design.load (Machine.hostFor environment verbose) path)) =
      (machine.files.design path, machine) := by
  have hread : ((Machine.hostFor environment verbose).readFile path).run machine =
      (machine.files.read path, machine) := by
    cases verbose <;> rfl
  change StateT.run (_ >>= _) machine = _
  rw [StateT.run_bind, hread]
  change StateT.run (match machine.files.read path with | .ok _ => _ | .error _ => _) machine = _
  unfold FileTree.design
  cases machine.files.read path <;> rfl

theorem variablesOf_hostFor (environment : Environment) (verbose : Bool) (text : String) :
    Command.variablesOf (Machine.hostFor environment verbose) text =
      pure fun name =>
        (((Expansion.names text).map fun name =>
          (name, environment.value? name)).lookup name).join := by
  simp [Command.variablesOf, Machine.hostFor_environment]

theorem variablesOf_congr {environment environment' : Environment} {text : String}
    (hvariables : ∀ name ∈ Expansion.names text,
      environment.value? name = environment'.value? name) (verbose : Bool) :
    Command.variablesOf (Machine.hostFor environment verbose) text =
      Command.variablesOf (Machine.hostFor environment' verbose) text := by
  have hvalues : (Expansion.names text).map (fun name => (name, environment.value? name)) =
      (Expansion.names text).map fun name => (name, environment'.value? name) :=
    List.map_congr_left fun name hname => congrArg (name, ·) (hvariables name hname)
  rw [variablesOf_hostFor, variablesOf_hostFor, hvalues]

/-! ### Two runs -/

def Alike (files : FileTree) (r : α → β → Prop) (action : ExceptT ε (StateM Machine) α)
    (action' : ExceptT ε (StateM Machine) β) : Prop :=
  ∀ machine machine' : Machine, machine.files = files → machine'.files = files →
    SameOutcome r (runOn machine action).1 (runOn machine' action').1 ∧
      (runOn machine action).2.files = (runOn machine' action').2.files

namespace Alike

variable {files : FileTree} {r : α → β → Prop} {s : γ → δ → Prop}
variable {action : ExceptT ε (StateM Machine) α} {action' : ExceptT ε (StateM Machine) β}

theorem pure {result : Except ε α} {result' : Except ε β} (h : SameOutcome r result result') :
    Alike files r (.mk (Pure.pure result)) (.mk (Pure.pure result')) := by
  rintro machine machine' rfl hfiles
  exact ⟨h, hfiles.symm⟩

theorem bind (h : Alike files r action action') {next : α → ExceptT ε (StateM Machine) γ}
    {next' : β → ExceptT ε (StateM Machine) δ}
    (hnext : ∀ later a b, r a b → Alike later s (next a) (next' b)) :
    Alike files s (action >>= next) (action' >>= next') := by
  intro machine machine' hfiles hfiles'
  have hfirst := h machine machine' hfiles hfiles'
  rw [runOn_bind, runOn_bind]
  generalize runOn machine action = outcome, runOn machine' action' = outcome' at hfirst
  obtain ⟨result, later⟩ := outcome
  obtain ⟨result', later'⟩ := outcome'
  obtain ⟨hresults, hlater⟩ := hfirst
  dsimp only at hresults hlater
  cases hresults with
  | error e => exact ⟨.error e, hlater⟩
  | ok hab => exact hnext later.files _ _ hab later later' rfl hlater.symm

theorem imp (h : Alike files r action action') {r' : α → β → Prop} (hr : ∀ a b, r a b → r' a b) :
    Alike files r' action action' := by
  intro machine machine' hfiles hfiles'
  obtain ⟨hresults, hlater⟩ := h machine machine' hfiles hfiles'
  exact ⟨hresults.imp hr, hlater⟩

theorem orFail {result : StateM Machine (Except ε α)} {result' : StateM Machine (Except ε β)}
    (h : Alike files r (.mk result) (.mk result')) (heading : String) (message : ε → String) :
    Alike files r (Command.orFail heading message result)
      (Command.orFail heading message result') := by
  intro machine machine' hfiles hfiles'
  obtain ⟨hresults, hlater⟩ := h machine machine' hfiles hfiles'
  rw [runOn_orFail, runOn_orFail]
  exact ⟨hresults.mapError _, hlater⟩

theorem log (environment environment' : Environment) (verbose : Bool)
    (events events' : List Event) :
    Alike (ε := ε) files (fun _ _ => True)
      (liftM ((Machine.hostFor environment verbose).log events))
      (liftM ((Machine.hostFor environment' verbose).log events')) := by
  rintro machine machine' rfl hfiles
  cases verbose <;> exact ⟨.ok trivial, hfiles.symm⟩

theorem load (environment environment' : Environment) (verbose : Bool) (path : String) :
    Alike files (fun design design' => design = design' ∧ files.design path = .ok design)
      (.mk (Design.load (Machine.hostFor environment verbose) path))
      (.mk (Design.load (Machine.hostFor environment' verbose) path)) := by
  rintro machine machine' rfl hfiles
  rw [runOn_load, runOn_load, hfiles]
  refine ⟨?_, rfl⟩
  cases machine.files.design path with
  | error e => exact .error e
  | ok design => exact .ok ⟨rfl, rfl⟩

theorem changeFiles (change : FileTree → Except FileFault FileTree) :
    Alike files (· = ·) (.mk (Machine.changeFiles change)) (.mk (Machine.changeFiles change)) := by
  rintro machine machine' rfl hfiles
  rw [runOn_changeFiles, runOn_changeFiles, hfiles]
  cases change machine.files with
  | error fault => exact ⟨.error fault, hfiles.symm⟩
  | ok later => exact ⟨.ok rfl, rfl⟩

end Alike

/-! ### Errors -/

def FailsOnly (p : ε → Prop) (action : ExceptT ε (StateM Machine) α) : Prop :=
  ∀ machine e, (runOn machine action).1 = .error e → p e

namespace FailsOnly

variable {p : ε → Prop} {action : ExceptT ε (StateM Machine) α}

theorem pure (a : α) : FailsOnly p (Pure.pure a : ExceptT ε (StateM Machine) α) := by
  intro machine e herror
  cases herror

theorem bind (h : FailsOnly p action) {next : α → ExceptT ε (StateM Machine) β}
    (hnext : ∀ a, FailsOnly p (next a)) : FailsOnly p (action >>= next) := by
  intro machine e herror
  have hfirst := h machine
  rw [runOn_bind] at herror
  generalize runOn machine action = outcome at hfirst herror
  rcases outcome with ⟨error | a, later⟩
  · obtain rfl : error = e := Except.error.inj herror
    exact hfirst error rfl
  · exact hnext a later e herror

theorem orFail {q : String → Prop} {heading : String} {message : ε → String}
    {result : StateM Machine (Except ε α)}
    (h : FailsOnly (fun e => q (heading ++ ": " ++ message e)) (.mk result)) :
    FailsOnly q (Command.orFail heading message result) := by
  intro machine text htext
  rw [runOn_orFail, mapError_eq_error_iff] at htext
  obtain ⟨e, herror, rfl⟩ := htext
  exact h machine e herror

theorem log (environment : Environment) (verbose : Bool) (events : List Event) :
    FailsOnly p (liftM ((Machine.hostFor environment verbose).log events)) := by
  intro machine e herror
  cases verbose <;> cases herror

end FailsOnly

end SchemaDesign
