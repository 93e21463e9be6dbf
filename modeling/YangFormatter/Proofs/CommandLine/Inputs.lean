import YangFormatter.Proofs.CommandLine.Execution

/-! # Invocations that can be carried out

Before anything is done, an invocation needs a style and all of its inputs. If it has them,
its plan is made from the inputs (`Invocation.exists_inputs`). If not, the plan at most
reports an error (`Invocation.plan_of_unfit`), and it breaks off without a status where a
width has no value or a path has a character that no path can have.
-/

namespace YangFormatter.CommandLine

/-! ## Reading inputs -/

/-- Whether there is something to read at a path. -/
def World.canRead (world : World) (path : Text) : Bool :=
  path == standardInput ||
    (Path.ofText path).isUsable && (world.workspace.read (.ofText path)).isOk

/-- The standard input can be read. -/
theorem World.canRead_standardInput (world : World) : world.canRead standardInput = true := by
  simp [World.canRead]

/-- A file can be read exactly if its path is usable and it has content. -/
theorem World.canRead_iff {world : World} {path : Text} (named : path ≠ standardInput) :
    world.canRead path = true ↔ (Path.ofText path).isUsable = true ∧
      ∃ bytes, world.workspace.read (.ofText path) = .ok bytes := by
  cases read : world.workspace.read (.ofText path) with
  | error error => simp [World.canRead, named, read, Except.isOk, Except.toBool]
  | ok bytes => simp [World.canRead, named, read, Except.isOk, Except.toBool]

/-- What paths give when they are read in order. The standard input gives all that it has
the first time, and nothing after that. -/
inductive World.Gives : World → List Input → Prop where
  | nil {world : World} : Gives world []
  | stdin {world : World} {inputs : List Input}
      (others : Gives { world with stdin := [] } inputs) :
      Gives world (⟨standardInput, world.stdin⟩ :: inputs)
  | file {world : World} {path : Text} {bytes : List UInt8} {inputs : List Input}
      (named : path ≠ standardInput)
      (read : world.workspace.read (.ofText path) = .ok bytes) (others : Gives world inputs) :
      Gives world (⟨path, bytes⟩ :: inputs)

/-- An input with a name is what the file of that name holds. -/
theorem World.Gives.read {world : World} {inputs : List Input} (gives : world.Gives inputs) :
    ∀ input ∈ inputs, input.path ≠ standardInput →
      world.workspace.read (.ofText input.path) = .ok input.bytes := by
  induction gives with
  | nil => exact fun _ member => (List.not_mem_nil member).elim
  | stdin _ ih => exact List.forall_mem_cons.mpr ⟨fun named => (named rfl).elim, ih⟩
  | file _ read _ ih => exact List.forall_mem_cons.mpr ⟨fun _ => read, ih⟩

/-- Inputs are read if there is something to read at every path. -/
theorem exists_readInputs {world : World} {paths : List Text}
    (each : ∀ path ∈ paths, world.canRead path = true) :
    ∃ inputs, readInputs world paths = .ok inputs ∧ inputs.map Input.path = paths ∧
      world.Gives inputs := by
  induction paths generalizing world with
  | nil => exact ⟨[], rfl, rfl, .nil⟩
  | cons path paths ih =>
      obtain ⟨own, others⟩ := List.forall_mem_cons.mp each
      by_cases standard : path = standardInput
      · obtain ⟨inputs, read, names, gives⟩ := @ih { world with stdin := [] } others
        refine ⟨⟨path, world.stdin⟩ :: inputs, ?_, congrArg (path :: ·) names, ?_⟩
        · rw [readInputs, if_pos standard, read]
          rfl
        · rw [standard]
          exact .stdin gives
      · obtain ⟨usable, bytes, content⟩ := (World.canRead_iff standard).mp own
        obtain ⟨inputs, read, names, gives⟩ := ih others
        refine ⟨⟨path, bytes⟩ :: inputs, ?_, congrArg (path :: ·) names,
          .file standard content gives⟩
        simp only [readInputs, standard, usable, content, read]
        rfl

/-- At the first path where there is nothing to read, reading fails. -/
theorem readInputs_of_find? {world : World} {paths : List Text} {path : Text}
    (first : paths.find? (!world.canRead ·) = some path) :
    ∃ failure, readInputs world paths = .error failure ∧
      (failure = .unusablePath ↔ (Path.ofText path).isUsable = false) := by
  induction paths generalizing world with
  | nil => cases first
  | cons other paths ih =>
      rw [List.find?_cons] at first
      by_cases standard : other = standardInput
      · rw [standard, world.canRead_standardInput] at first
        obtain ⟨failure, fails, cause⟩ := @ih { world with stdin := [] } first
        refine ⟨failure, ?_, cause⟩
        rw [readInputs, if_pos standard, fails]
        rfl
      cases readable : world.canRead other with
      | true =>
          rw [readable] at first
          obtain ⟨usable, bytes, content⟩ := (World.canRead_iff standard).mp readable
          obtain ⟨failure, fails, cause⟩ := ih first
          refine ⟨failure, ?_, cause⟩
          simp only [readInputs, standard, usable, content, fails]
          rfl
      | false =>
          rw [readable] at first
          obtain rfl : other = path := Option.some.inj first
          rw [readInputs, if_neg standard]
          cases usable : (Path.ofText other).isUsable with
          | false => exact ⟨.unusablePath, rfl, iff_of_true rfl rfl⟩
          | true =>
              cases content : world.workspace.read (.ofText other) with
              | error error => exact ⟨.unreadable other error, rfl, iff_of_false nofun nofun⟩
              | ok bytes =>
                  rw [(World.canRead_iff standard).mpr ⟨usable, bytes, content⟩] at readable
                  cases readable

/-! ## Styles -/

namespace Settings

/-- Whether the widths of some settings make a style. -/
def isValid (settings : Settings) : Bool :=
  settings.tabWidth.any (0 ≤ ·) && settings.maxWidth.any (0 < ·)

/-- Whether a width without a value is looked at, which is so unless another width is
refused before. -/
def lacksWidth (settings : Settings) : Bool :=
  settings.tabWidth.all (0 ≤ ·) && (settings.tabWidth.isNone || settings.maxWidth.isNone)

/-- The style of some settings, or what is wrong with their widths. -/
def style (settings : Settings) : Except Refusal Style :=
  match settings.tabWidth, settings.maxWidth with
  | none, _ => .error .noTabWidth
  | some tabWidth, none =>
      .error (if tabWidth < 0 then .style .negativeIndent else .noMaxWidth)
  | some tabWidth, some maxWidth =>
      (Style.ofWidths tabWidth maxWidth settings.canonicalOrder).mapError .style

variable {settings : Settings}

/-- Valid settings make a style. -/
theorem exists_style (valid : settings.isValid = true) : ∃ style, settings.style = .ok style := by
  rw [isValid, Bool.and_eq_true, Option.any_eq_true, Option.any_eq_true] at valid
  obtain ⟨⟨tab, tabWidth, narrow⟩, ⟨width, maxWidth, wide⟩⟩ := valid
  rw [decide_eq_true_eq] at narrow wide
  simp [style, tabWidth, maxWidth, Style.ofWidths, not_lt.mpr narrow, wide, Except.mapError]

/-- Valid settings lack no width. -/
theorem lacksWidth_of_isValid (valid : settings.isValid = true) : settings.lacksWidth = false := by
  rw [isValid, Bool.and_eq_true, Option.any_eq_true, Option.any_eq_true] at valid
  obtain ⟨⟨tab, tabWidth, _⟩, ⟨width, maxWidth, _⟩⟩ := valid
  simp [lacksWidth, tabWidth, maxWidth]

/-- Widths that make no style are reported, unless one without a value is looked at. -/
theorem exists_refusal (invalid : settings.isValid = false) :
    ∃ refusal, settings.style = .error refusal ∧
      Effect.Silent (Plan.ofRefusal refusal).effects ∧
      ((Plan.ofRefusal refusal).ending = .exit 1 ↔ settings.lacksWidth = false) := by
  have reported : ∀ error, settings.style = .error (.style error) → settings.lacksWidth = false →
      ∃ refusal, settings.style = .error refusal ∧
        Effect.Silent (Plan.ofRefusal refusal).effects ∧
        ((Plan.ofRefusal refusal).ending = .exit 1 ↔ settings.lacksWidth = false) :=
    fun error refused given => ⟨_, refused, Plan.silent_failure _, iff_of_true rfl given⟩
  cases tabWidth : settings.tabWidth with
  | none =>
      refine ⟨.noTabWidth, by simp [style, tabWidth], Plan.silent_abort _, iff_of_false nofun ?_⟩
      simp [lacksWidth, tabWidth]
  | some tab =>
      by_cases negative : tab < 0
      · apply reported .negativeIndent
        · cases maxWidth : settings.maxWidth <;>
            simp [style, tabWidth, maxWidth, negative, Style.ofWidths, Except.mapError]
        · simp [lacksWidth, tabWidth, negative]
      cases maxWidth : settings.maxWidth with
      | none =>
          refine ⟨.noMaxWidth, ?_, Plan.silent_abort _, iff_of_false nofun ?_⟩
          · simp [style, tabWidth, maxWidth, negative]
          · simp [lacksWidth, tabWidth, maxWidth, negative]
      | some width =>
          have narrow : ¬ 0 < width := by
            simpa [isValid, tabWidth, maxWidth, not_lt.mp negative] using invalid
          apply reported .noWidth
          · simp [style, tabWidth, maxWidth, negative, narrow, Style.ofWidths, Except.mapError]
          · simp [lacksWidth, tabWidth, maxWidth]

end Settings

/-! ## Plans -/

namespace Invocation

theorem style_eq (invocation : Invocation) :
    invocation.style =
      if invocation.settings.inPlace && invocation.paths.contains standardInput then
        .error .standardInputInPlace
      else
        invocation.settings.style := rfl

/-- An invocation that cannot be carried out: it would write to the standard input, it has
no style, or there is nothing to read at one of its paths. -/
def Unfit (invocation : Invocation) (world : World) : Prop :=
  (invocation.settings.inPlace = true ∧ standardInput ∈ invocation.paths) ∨
    invocation.settings.isValid = false ∨ ∃ path ∈ invocation.paths, world.canRead path = false

/-- An invocation whose failure is not reported: it looks at a width without a value, or the
first path where there is nothing to read has a character that no path can have. -/
def BreaksOff (invocation : Invocation) (world : World) : Prop :=
  ¬ (invocation.settings.inPlace = true ∧ standardInput ∈ invocation.paths) ∧
    (invocation.settings.lacksWidth = true ∨ invocation.settings.isValid = true ∧
      ∃ path ∈ invocation.paths.find? (!world.canRead ·), (Path.ofText path).isUsable = false)

variable {invocation : Invocation} {machine : Machine} {world : World}

/-- The style is that of the settings if the standard input is not to be written back. -/
theorem style_of_apart
    (apart : ¬ (invocation.settings.inPlace = true ∧ standardInput ∈ invocation.paths)) :
    invocation.style = invocation.settings.style := by
  rw [style_eq, if_neg]
  simpa using apart

/-- The plan of an invocation that cannot be carried out. -/
theorem plan_of_unfit (unfit : invocation.Unfit world) :
    Effect.Silent (invocation.plan machine world).effects ∧
      ((invocation.plan machine world).ending = .exit 1 ↔ ¬ invocation.BreaksOff world) := by
  by_cases apart : invocation.settings.inPlace = true ∧ standardInput ∈ invocation.paths
  · have refused : invocation.style = .error .standardInputInPlace := by
      rw [style_eq, if_pos]
      simpa using apart
    rw [plan, refused]
    exact ⟨Plan.silent_failure _, iff_of_true rfl fun breaks => breaks.1 apart⟩
  cases valid : invocation.settings.isValid with
  | false =>
      obtain ⟨refusal, refused, silent, reported⟩ := Settings.exists_refusal valid
      rw [plan, style_of_apart apart, refused]
      refine ⟨silent, reported.trans ?_⟩
      simp [BreaksOff, apart, valid]
  | true =>
      obtain ⟨style, given⟩ := Settings.exists_style valid
      have unread : ∃ path ∈ invocation.paths, world.canRead path = false := by
        rcases unfit with inPlace | invalid | unread
        · exact (apart inPlace).elim
        · rw [valid] at invalid
          cases invalid
        · exact unread
      obtain ⟨path, first⟩ : ∃ path, invocation.paths.find? (!world.canRead ·) = some path := by
        rw [← Option.isSome_iff_exists, List.find?_isSome]
        simpa using unread
      obtain ⟨failure, fails, cause⟩ := readInputs_of_find? first
      have breaks : invocation.BreaksOff world ↔ failure = .unusablePath := by
        simp [BreaksOff, apart, valid, Settings.lacksWidth_of_isValid valid, first, cause]
      rw [breaks, plan, style_of_apart apart, given]
      simp only [fails]
      cases failure with
      | unreadable path error => exact ⟨Plan.silent_failure _, iff_of_true rfl nofun⟩
      | unusablePath => exact ⟨Plan.silent_abort _, iff_of_false nofun fun other => other rfl⟩

/-- The plan for inputs that can be read. -/
theorem plan_of_inputs {style : Style} {inputs : List Input} (given : invocation.style = .ok style)
    (read : readInputs world invocation.paths = .ok inputs) :
    invocation.plan machine world = .ofInputs machine invocation.settings style inputs := by
  rw [plan, given]
  simp only [read]

/-- Files are formatted if no listing is asked for. -/
theorem plan_of_files {style : Style} {inputs : List Input}
    (files : standardInput ∉ invocation.paths) (tokens : invocation.settings.showTokens = false)
    (tree : invocation.settings.showTree = false) (given : invocation.settings.style = .ok style)
    (read : readInputs world invocation.paths = .ok inputs) :
    invocation.plan machine world = .formatting machine invocation.settings style false inputs := by
  have styled : invocation.style = .ok style := by
    rw [style_of_apart fun both => files both.2, given]
  rw [plan_of_inputs styled read, Plan.ofInputs, tokens, tree]
  rfl

/-- An invocation that can be carried out has a style and inputs, and its plan is made from
them. -/
theorem exists_inputs (machine : Machine) (fit : ¬ invocation.Unfit world) :
    ∃ style inputs, invocation.style = .ok style ∧ inputs.map Input.path = invocation.paths ∧
      world.Gives inputs ∧
      invocation.plan machine world = .ofInputs machine invocation.settings style inputs := by
  rw [Unfit, not_or, not_or] at fit
  obtain ⟨apart, valid, readable⟩ := fit
  obtain ⟨style, given⟩ := Settings.exists_style (by simpa using valid)
  have each : ∀ path ∈ invocation.paths, world.canRead path = true := by simpa using readable
  obtain ⟨inputs, read, names, gives⟩ := exists_readInputs each
  rw [← style_of_apart apart] at given
  exact ⟨style, inputs, given, names, gives, plan_of_inputs given read⟩

end Invocation

end YangFormatter.CommandLine
