import YangFormatter.Proofs.CommandLine.Effects
import YangFormatter.Proofs.Format.Idempotence

/-! # Checking

A check passes exactly if formatting in place succeeds and changes nothing, and it passes
after formatting in place, unless a file has a carriage return that no line feed follows
(`run_check_iff`).
-/

namespace YangFormatter.CommandLine

/-- An input that has been formatted and written is formatted to itself. -/
theorem Formatted.By.again {machine : Machine} {style : Style} {formatted : Formatted}
    (own : formatted.By machine style)
    (paired : Utf8.returnsPaired formatted.input.bytes = true) {input : Input}
    (written : input.bytes = Utf8.encode formatted.text) :
    Formatted.By machine style ⟨input, formatted.text⟩ := by
  obtain ⟨source, nodes, bytes, parsed, affords, text⟩ := own.exists_source
  rw [bytes] at paired
  have clean := Text.clean_of_parse parsed (Utf8.returnsPaired_of_encode paired)
  have again : (Source.bytes input.bytes).parse =
      .ok (Relayout.tree style (Tidy.tree style nodes)) := by
    rw [Source.parse, Source.decode, written, Utf8.decode_encode, ← text]
    exact Style.parse_formatTree_of_clean clean style
  rw [Formatted.By, Style.attemptFormat_eq_ok_iff again, Machine.affords_relayout_iff,
    Machine.affords_tree_iff, Style.formatTree_relayout clean rfl]
  exact ⟨affords, text⟩

namespace Plan.Course

variable {machine : Machine} {settings : Settings} {style : Style} {inputs rest : List Input}
  {plan : Plan} {done : List Formatted}

/-- Formatting succeeds if no input stops it and a check finds none that would change. -/
theorem exit_zero_iff (course : Course machine settings style false inputs plan done rest) :
    plan.ending = .exit 0 ↔ rest = [] ∧
      (settings.check = true → ∀ formatted ∈ done, formatted.changes = false) := by
  rw [course.ends.exit_zero_iff]
  simp

/-- A check passes if every input is formatted to itself. -/
theorem exit_zero_of_forall (course : Course machine settings style false inputs plan done rest)
    (each : ∀ input ∈ inputs, ∃ text, Formatted.By machine style ⟨input, text⟩ ∧
      input.bytes = Utf8.encode text) : plan.ending = .exit 0 := by
  refine course.exit_zero_iff.mpr ⟨course.ends.eq_nil_of_forall fun input member => ?_,
    fun _ formatted member => ?_⟩
  · obtain ⟨text, own, _⟩ := each input (course.mem_inputs_of_mem_rest member)
    exact ⟨text, own⟩
  · obtain ⟨text, own, same⟩ := each formatted.input (course.mem_inputs member)
    have text := Except.ok.inj (own.symm.trans (course.formatted formatted member))
    dsimp only at text
    rw [Formatted.changes, same, text]
    exact bne_self_eq_false _

end Plan.Course

/-- Formatting in place changes nothing exactly if no input changes. -/
theorem writeAll_eq_self_iff {workspace : Workspace} {machine : Machine} {style : Style}
    {done : List Formatted}
    (own : ∀ formatted ∈ done, formatted.ReadFrom workspace)
    (each : ∀ formatted ∈ done, formatted.By machine style) :
    workspace.writeAll ((done.filter Formatted.changes).map Formatted.write) = workspace ↔
      ∀ formatted ∈ done, formatted.changes = false := by
  constructor
  · intro same formatted member
    have holds := (rewritten_writeAll own each).holds formatted member
    rw [same, own formatted member] at holds
    rw [Formatted.changes, Except.ok.inj holds]
    exact bne_self_eq_false _
  · intro unchanged
    have empty : done.filter Formatted.changes = [] := by
      rw [List.filter_eq_nil_iff]
      intro formatted member
      rw [unchanged formatted member]
      exact Bool.false_ne_true
    rw [empty]
    rfl

section

variable {machine : Machine} {world later : World} {done : List Formatted}

/-- Files that have been formatted in place can still be read. -/
theorem Rewritten.canRead (rewritten : Rewritten world.workspace later.workspace done)
    {paths : List Text} (files : ∀ path ∈ paths, path ≠ standardInput ∧ world.canRead path = true)
    (known : ∀ path ∈ paths, ∃ formatted ∈ done, formatted.input.path = path) :
    ∀ path ∈ paths, later.canRead path = true := by
  intro path member
  obtain ⟨formatted, present, rfl⟩ := known path member
  obtain ⟨named, before⟩ := files _ member
  rw [World.canRead_iff named] at before ⊢
  exact ⟨before.1, _, rewritten.holds formatted present⟩

/-- Files that have been formatted in place are formatted to themselves. -/
theorem Rewritten.exists_by (rewritten : Rewritten world.workspace later.workspace done)
    {style : Style} (each : ∀ formatted ∈ done, formatted.By machine style)
    (paired : ∀ formatted ∈ done, Utf8.returnsPaired formatted.input.bytes = true)
    {inputs : List Input} (gives : later.Gives inputs)
    (known : ∀ input ∈ inputs, input.path ≠ standardInput ∧
      ∃ formatted ∈ done, formatted.input.path = input.path) :
    ∀ input ∈ inputs, ∃ text, Formatted.By machine style ⟨input, text⟩ ∧
      input.bytes = Utf8.encode text := by
  intro input member
  obtain ⟨named, formatted, present, same⟩ := known input member
  have read := gives.read input member named
  rw [← same, rewritten.holds formatted present] at read
  have written := (Except.ok.inj read).symm
  exact ⟨_, (each formatted present).again (paired formatted present) written, written⟩

end

/-- A run that checks files, or formats them in place, takes the course of its inputs. -/
private theorem carriesOut_course {arguments : List Text} {invocation : Invocation}
    (accepted : Invocation.ofArguments arguments = .ok invocation)
    (still : (invocation.settings.check || invocation.settings.inPlace) = true)
    (listless : invocation.settings.showTokens = false ∧ invocation.settings.showTree = false)
    (named : standardInput ∉ invocation.paths) {style : Style}
    (given : invocation.settings.style = .ok style) {machine : Machine} {world : World}
    {inputs : List Input} (read : readInputs world invocation.paths = .ok inputs)
    {done : List Formatted} {rest : List Input}
    (courses : ∀ settings wouldChange, Plan.Course machine settings style wouldChange inputs
      (.formatting machine settings style wouldChange inputs) done rest) :
    Plan.Course machine invocation.settings style false inputs (invocation.plan machine world) done
        rest ∧
      (run machine world arguments).CarriesOut world (invocation.plan machine world) := by
  have course : Plan.Course machine invocation.settings style false inputs
      (invocation.plan machine world) done rest := by
    rw [Invocation.plan_of_files named listless.1 listless.2 given read]
    exact courses invocation.settings false
  exact ⟨course, carriesOut_run accepted (.inr (course.quiet still))⟩

/-- A check of files passes exactly if formatting them in place succeeds and changes nothing.
After formatting in place has succeeded a check passes, unless a file has a carriage return
that no line feed follows. -/
theorem run_check_iff {options : Settings} {paths checking rewriting : List Text}
    (checks : Invocation.ofArguments checking = .ok ⟨{ options with check := true }, paths⟩)
    (rewrites : Invocation.ofArguments rewriting = .ok ⟨{ options with inPlace := true }, paths⟩)
    (unchecked : options.check = false)
    (listless : options.showTokens = false ∧ options.showTree = false)
    (valid : options.isValid = true) {machine : Machine} {world : World}
    (files : ∀ path ∈ paths, path ≠ standardInput ∧ world.canRead path = true) :
    ((run machine world checking).ending = .exit 0 ↔
      (run machine world rewriting).ending = .exit 0 ∧
        (run machine world rewriting).workspace = world.workspace) ∧
    ((run machine world rewriting).ending = .exit 0 →
      (∀ path ∈ paths, ∀ bytes, world.workspace.read (.ofText path) = .ok bytes →
        Utf8.returnsPaired bytes = true) →
      ∀ later : World, later.workspace = (run machine world rewriting).workspace →
        (run machine later checking).ending = .exit 0) := by
  have named : standardInput ∉ paths := fun member => (files _ member).1 rfl
  obtain ⟨style, given⟩ := Settings.exists_style valid
  obtain ⟨inputs, read, names, gives⟩ := exists_readInputs fun path member => (files path member).2
  obtain ⟨done, rest, courses⟩ := Plan.exists_course machine style inputs
  obtain ⟨check, checked⟩ := carriesOut_course checks rfl listless named given read courses
  obtain ⟨rewrite, rewritten⟩ :=
    carriesOut_course rewrites (Bool.or_true _) listless named given read courses
  have writes : (Invocation.plan ⟨{ options with inPlace := true }, paths⟩ machine world).writes =
      (done.filter Formatted.changes).map Formatted.write :=
    rewrite.writes.trans (if_pos (by simp [unchecked]))
  have own := check.readFrom gives (names ▸ named)
  rw [rewritten.ending, rewrite.exit_zero_iff, rewritten.workspace, writes]
  constructor
  · rw [checked.ending, check.exit_zero_iff, writeAll_eq_self_iff own check.formatted]
    simp [unchecked]
  · rintro ⟨finished, _⟩ paired later same
    have known : ∀ path ∈ paths, ∃ formatted ∈ done, formatted.input.path = path := by
      rw [← names, check.inputs_eq, finished, List.append_nil, List.map_map, List.forall_mem_map]
      exact fun formatted member => ⟨formatted, member, rfl⟩
    have files' : Rewritten world.workspace later.workspace done :=
      same ▸ rewritten_writeAll own check.formatted
    obtain ⟨inputs', read', names', gives'⟩ := exists_readInputs (files'.canRead files known)
    obtain ⟨done', rest', courses'⟩ := Plan.exists_course machine style inputs'
    obtain ⟨check', checked'⟩ := carriesOut_course checks rfl listless named given read' courses'
    rw [checked'.ending]
    refine check'.exit_zero_of_forall (files'.exists_by check.formatted ?_ gives' ?_)
    · intro formatted member
      refine paired formatted.input.path ?_ _ (own formatted member)
      rw [← names]
      exact List.mem_map_of_mem (check.mem_inputs member)
    · intro input member
      have path : input.path ∈ paths := names' ▸ List.mem_map_of_mem member
      exact ⟨(files _ path).1, known _ path⟩

/-- A file that formatting changes. -/
theorem run_check_iff_file :
    let world : World :=
      { workspace := ⟨[(["u.yang".toList], .file (Utf8.encode "a  b;\r\n".toList))]⟩ }
    let checking := ["--check".toList, "u.yang".toList]
    let rewriting := ["-i".toList, "u.yang".toList]
    ((run {} world checking).ending = .exit 0 ↔
      (run {} world rewriting).ending = .exit 0 ∧
        (run {} world rewriting).workspace = world.workspace) ∧
    ((run {} world rewriting).ending = .exit 0 →
      ∀ later : World, later.workspace = (run {} world rewriting).workspace →
        (run {} later checking).ending = .exit 0) := by
  intro world checking rewriting
  have checks : Invocation.ofArguments ["--check".toList, "u.yang".toList] =
      .ok ⟨{ check := true }, ["u.yang".toList]⟩ := by
    cbv
  have rewrites : Invocation.ofArguments ["-i".toList, "u.yang".toList] =
      .ok ⟨{ inPlace := true }, ["u.yang".toList]⟩ := by
    cbv
  have content : world.workspace.read (.ofText "u.yang".toList) =
      .ok (Utf8.encode "a  b;\r\n".toList) := rfl
  have files : ∀ path ∈ ["u.yang".toList], path ≠ standardInput ∧ world.canRead path = true := by
    rw [List.forall_mem_singleton]
    exact ⟨by decide, (World.canRead_iff (by decide)).mpr ⟨by decide, _, content⟩⟩
  obtain ⟨agree, again⟩ :=
    @run_check_iff {} _ _ _ checks rewrites rfl ⟨rfl, rfl⟩ (by decide) {} _ files
  refine ⟨agree, fun succeeds => again succeeds ?_⟩
  intro path member bytes read
  rw [List.mem_singleton.mp member, content] at read
  cases read
  decide

end YangFormatter.CommandLine
