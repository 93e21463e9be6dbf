import YangFormatter.Proofs.CommandLine.Inputs

/-! # What a run does

An invocation that cannot be carried out does nothing but report it, unless it breaks off.
Otherwise only formatting in place changes files, and only those among the inputs before the
first that stops it whose formatted text is not what they hold already
(`run_effects`).
-/

namespace YangFormatter.CommandLine

namespace Plan

/-- A listing writes nothing. -/
theorem writes_listing (describe : Source → Except Failure Text) (inputs : List Input) :
    (listing describe inputs).writes = [] := by
  induction inputs with
  | nil => rfl
  | cons input inputs ih =>
      rw [listing]
      split
      · rw [writes_after, ih]
        rfl
      · exact (silent_failure _).writes
      · exact (silent_abort _).writes

/-- Only formatting in place writes files. -/
theorem writes_ofInputs {settings : Settings}
    (reads : settings.showTokens = true ∨ settings.showTree = true ∨ settings.check = true ∨
      settings.inPlace = false) (machine : Machine) (style : Style) (inputs : List Input) :
    (ofInputs machine settings style inputs).writes = [] := by
  rw [ofInputs]
  split_ifs with tokens tree
  · exact writes_listing _ _
  · exact writes_listing _ _
  · obtain ⟨done, rest, courses⟩ := exists_course machine style inputs
    rw [(courses settings false).writes, if_neg]
    simpa [tokens, tree, imp_iff_not_or] using reads

end Plan

/-! ## Formatting in place -/

/-- The input has been read from a file of a workspace. -/
def Formatted.ReadFrom (workspace : Workspace) (formatted : Formatted) : Prop :=
  workspace.read (.ofText formatted.input.path) = .ok formatted.input.bytes

/-- Without the standard input, all inputs are read from files. -/
theorem Plan.Course.readFrom {machine : Machine} {settings : Settings} {style : Style}
    {wouldChange : Bool} {inputs rest : List Input} {plan : Plan} {done : List Formatted}
    (course : Course machine settings style wouldChange inputs plan done rest) {world : World}
    (gives : world.Gives inputs) (named : standardInput ∉ inputs.map Input.path) :
    ∀ formatted ∈ done, formatted.ReadFrom world.workspace := by
  intro formatted member
  have input := course.mem_inputs member
  refine gives.read _ input fun standard => named ?_
  rw [← standard]
  exact List.mem_map_of_mem input

/-- The files of formatted inputs hold their texts, and where no changed input has been read
everything is as before. -/
structure Rewritten (before after : Workspace) (done : List Formatted) : Prop where
  holds : ∀ formatted ∈ done,
    after.read (.ofText formatted.input.path) = .ok (Utf8.encode formatted.text)
  kept : ∀ names, (∀ formatted ∈ done, formatted.changes = true →
      before.locate (.ofText formatted.input.path) ≠ .ok (.inside names)) →
    after.entryAt? names = before.entryAt? names

section

variable {workspace : Workspace} {machine : Machine} {style : Style} {done : List Formatted}

/-- Two inputs from one file have one text. -/
private theorem text_eq_of_locate {first second : Formatted} (own : first.ReadFrom workspace)
    (own' : second.ReadFrom workspace) (by_first : first.By machine style)
    (by_second : second.By machine style)
    {names : List Text}
    (located : workspace.locate (.ofText first.input.path) = .ok (.inside names))
    (located' : workspace.locate (.ofText second.input.path) = .ok (.inside names)) :
    second.text = first.text := by
  have bytes : second.input.bytes = first.input.bytes := by
    obtain ⟨place, leads, holds⟩ := Workspace.read_eq_ok_iff.mp own
    obtain ⟨place', leads', holds'⟩ := Workspace.read_eq_ok_iff.mp own'
    rw [located] at leads
    rw [located'] at leads'
    cases leads
    cases leads'
    rw [holds] at holds'
    exact (Entry.file.inj (Option.some.inj holds')).symm
  rw [Formatted.By, bytes] at by_second
  exact Except.ok.inj (by_second.symm.trans by_first)

/-- Formatting in place writes the texts of the inputs that change. -/
theorem rewritten_writeAll (own : ∀ formatted ∈ done, formatted.ReadFrom workspace)
    (each : ∀ formatted ∈ done, formatted.By machine style) :
    Rewritten workspace
      (workspace.writeAll ((done.filter Formatted.changes).map Formatted.write)) done := by
  have readable : ∀ write ∈ (done.filter Formatted.changes).map Formatted.write,
      ∃ old, workspace.read write.1 = .ok old := by
    rw [List.forall_mem_map]
    exact fun formatted member => ⟨_, own formatted (List.mem_of_mem_filter member)⟩
  refine ⟨fun formatted member => ?_, fun names elsewhere => ?_⟩
  · obtain ⟨names, located, holds⟩ := Workspace.read_eq_ok_iff.mp (own formatted member)
    refine Workspace.read_eq_ok_iff.mpr
      ⟨names, (Workspace.locate_writeAll readable _).trans located, ?_⟩
    rcases Workspace.entryAt?_writeAll readable names with
      ⟨elsewhere, kept⟩ | ⟨write, inside, leads, written⟩
    · -- nothing has been written there, so that the input is its own text
      have same : Utf8.encode formatted.text = formatted.input.bytes := by
        by_contra different
        refine elsewhere formatted.write (List.mem_map_of_mem ?_) located
        exact List.mem_filter.mpr ⟨member, by simpa [Formatted.changes] using different⟩
      rw [kept, holds, same]
    · obtain ⟨other, changed, rfl⟩ := List.mem_map.mp inside
      have present := List.mem_of_mem_filter changed
      have same : other.text = formatted.text :=
        text_eq_of_locate (own formatted member) (own other present) (each formatted member)
          (each other present) located leads
      rw [written, Formatted.write, same]
  · rcases Workspace.entryAt?_writeAll readable names with
      ⟨_, kept⟩ | ⟨write, inside, leads, _⟩
    · exact kept
    · obtain ⟨formatted, changed, rfl⟩ := List.mem_map.mp inside
      obtain ⟨member, changes⟩ := List.mem_filter.mp changed
      exact (elsewhere formatted member changes leads).elim

end

/-! ## Runs -/

/-- What a run comes to that formats its inputs: `done` is what becomes of those before the
first that stops it, and `rest` are the others. -/
structure Outcome.Formats (outcome : Outcome) (machine : Machine) (world : World)
    (inPlace : Bool) (style : Style) (inputs : List Input) (done : List Formatted)
    (rest : List Input) : Prop where
  inputs_eq : inputs = done.map Formatted.input ++ rest
  formatted : ∀ formatted ∈ done, formatted.By machine style
  ends : Ends machine style 0 rest outcome.ending
  printed : outcome.stdout = if inPlace then [] else done.flatMap Formatted.text
  files : if inPlace then Rewritten world.workspace outcome.workspace done
    else outcome.workspace = world.workspace

/-- A run that formats its inputs fails exactly if one of them has a problem, if the machine
affords the trees of all others. -/
theorem Outcome.Formats.exit_one_iff {outcome : Outcome} {machine : Machine} {world : World}
    {inPlace : Bool} {style : Style} {inputs : List Input} {done : List Formatted}
    {rest : List Input} (formats : outcome.Formats machine world inPlace style inputs done rest)
    (affords : ∀ input ∈ inputs, ∀ nodes, (Source.bytes input.bytes).parse = .ok nodes →
      machine.Affords style nodes) :
    outcome.ending = .exit 1 ↔
      ∃ input ∈ inputs, ∃ problem, (Source.bytes input.bytes).parse = .error problem := by
  have all := formats.inputs_eq
  have ends := formats.ends
  generalize outcome.ending = ending at ends
  cases ends with
  | finished =>
      refine iff_of_false nofun ?_
      rintro ⟨input, member, problem, fails⟩
      rw [all, List.append_nil] at member
      obtain ⟨formatted, own, rfl⟩ := List.mem_map.mp member
      have formats := formats.formatted formatted own
      cases formats.symm.trans (Style.attemptFormat_of_error fails style machine)
  | @refused input _ problem fails =>
      refine iff_of_true rfl ⟨input, ?_, problem, fails⟩
      rw [all]
      exact List.mem_append_right _ List.mem_cons_self
  | @blocked input _ failure lacks breaks =>
      cases parsed : (Source.bytes input.bytes).parse with
      | error problem =>
          rw [Style.attemptFormat_of_error parsed] at breaks
          cases breaks
          cases lacks
      | ok nodes =>
          have room := affords input (all ▸ List.mem_append_right _ List.mem_cons_self) _ parsed
          cases breaks.symm.trans (Style.attemptFormat_of_affords parsed room)

/-- A run that formats takes the course of its inputs. -/
theorem Outcome.CarriesOut.formats {outcome : Outcome} {invocation : Invocation}
    {machine : Machine} {world : World}
    (carried : outcome.CarriesOut world (invocation.plan machine world))
    (fit : ¬ invocation.Unfit world)
    (tokens : invocation.settings.showTokens = false)
    (tree : invocation.settings.showTree = false) (check : invocation.settings.check = false) :
    ∃ style inputs done rest, invocation.style = .ok style ∧
      inputs.map Input.path = invocation.paths ∧ world.Gives inputs ∧
      outcome.Formats machine world invocation.settings.inPlace style inputs done rest := by
  obtain ⟨style, inputs, given, names, gives, planned⟩ := Invocation.exists_inputs machine fit
  obtain ⟨done, rest, courses⟩ := Plan.exists_course machine style inputs
  have course : Plan.Course machine invocation.settings style false inputs
      (invocation.plan machine world) done rest := by
    rw [planned, Plan.ofInputs, tokens, tree]
    exact courses invocation.settings false
  have ends := course.ends
  have printed := course.output
  have writes := course.writes
  rw [check] at ends printed writes
  refine ⟨style, inputs, done, rest, given, names, gives, course.inputs_eq, course.formatted,
    ?_, carried.stdout.trans printed, ?_⟩
  · rw [carried.ending]
    exact ends
  rw [carried.workspace, writes]
  cases inPlace : invocation.settings.inPlace with
  | false => rfl
  | true =>
      have named : standardInput ∉ inputs.map Input.path := by
        rw [names]
        exact fun standard => fit (.inl ⟨inPlace, standard⟩)
      exact rewritten_writeAll (course.readFrom gives named) course.formatted

/-- What a run does. If the invocation cannot be carried out, nothing is printed and no file
changes, and the run fails with a status unless it breaks off. Files change only where inputs
are formatted in place and nothing else is asked for. Then, as where the texts are printed,
inputs are formatted up to the first that has a problem or that the machine has no room for. -/
theorem run_effects {arguments : List Text} {invocation : Invocation}
    (accepted : Invocation.ofArguments arguments = .ok invocation) {machine : Machine}
    {world : World} (works : world.stdoutFault = none) :
    let outcome := run machine world arguments
    let settings := invocation.settings
    (invocation.Unfit world → outcome.stdout = [] ∧ outcome.workspace = world.workspace ∧
      (outcome.ending = .exit 1 ↔ ¬ invocation.BreaksOff world)) ∧
    (settings.showTokens = true ∨ settings.showTree = true ∨ settings.check = true ∨
      settings.inPlace = false → outcome.workspace = world.workspace) ∧
    (¬ invocation.Unfit world → settings.showTokens = false → settings.showTree = false →
      settings.check = false →
      ∃ style inputs done rest, invocation.style = .ok style ∧
        inputs.map Input.path = invocation.paths ∧ world.Gives inputs ∧
        outcome.Formats machine world settings.inPlace style inputs done rest ∧
        ((∀ input ∈ inputs, ∀ nodes, (Source.bytes input.bytes).parse = .ok nodes →
            machine.Affords style nodes) →
          (outcome.ending = .exit 1 ↔
            ∃ input ∈ inputs, ∃ problem, (Source.bytes input.bytes).parse = .error problem))) := by
  intro outcome settings
  have carried : outcome.CarriesOut world (invocation.plan machine world) :=
    carriesOut_run accepted (.inl works)
  refine ⟨fun unfit => ?_, fun reads => ?_, fun fit tokens tree check => ?_⟩
  · obtain ⟨silent, reported⟩ := Invocation.plan_of_unfit unfit
    refine ⟨carried.stdout.trans silent.output, ?_, carried.ending ▸ reported⟩
    rw [carried.workspace, Plan.writes, silent.writes]
    rfl
  · have writes : (invocation.plan machine world).writes = [] := by
      by_cases unfit : invocation.Unfit world
      · exact (Invocation.plan_of_unfit unfit).1.writes
      · obtain ⟨style, inputs, _, _, _, planned⟩ := Invocation.exists_inputs machine unfit
        rw [planned]
        exact Plan.writes_ofInputs reads machine style inputs
    rw [carried.workspace, writes]
    rfl
  · obtain ⟨style, inputs, done, rest, given, names, gives, formats⟩ :=
      carried.formats fit tokens tree check
    exact ⟨style, inputs, done, rest, given, names, gives, formats, formats.exit_one_iff⟩

/-- A width without a value is no valid width, but it is not reported either. -/
theorem run_breaksOff :
    let world : World :=
      { workspace := ⟨[(["u.yang".toList], .file (Utf8.encode "a b;".toList))]⟩ }
    let arguments := ["--max-width=--".toList, "u.yang".toList]
    ∃ invocation, Invocation.ofArguments arguments = .ok invocation ∧
      invocation.settings.isValid = false ∧ (run {} world arguments).stdout = [] ∧
      (run {} world arguments).workspace = world.workspace ∧
      (run {} world arguments).ending ≠ .exit 1 := by
  intro world arguments
  have accepted : Invocation.ofArguments ["--max-width=--".toList, "u.yang".toList] =
      .ok ⟨{ maxWidth := none }, ["u.yang".toList]⟩ := by
    cbv
  have works : world.stdoutFault = none := rfl
  obtain ⟨failing, _⟩ := @run_effects _ _ accepted {} _ works
  obtain ⟨stdout, workspace, reported⟩ := failing (.inr (.inl rfl))
  have breaks : Invocation.BreaksOff ⟨{ maxWidth := none }, ["u.yang".toList]⟩ world :=
    ⟨fun both => Bool.false_ne_true both.1, .inl rfl⟩
  exact ⟨_, accepted, rfl, stdout, workspace, fun exits => reported.mp exits breaks⟩

end YangFormatter.CommandLine
