import Mathlib.Tactic
import YangFormatter.Files.Workspace

/-! # Reading and writing files

Writing to a file changes the content at one place of the workspace
(`Workspace.entryAt?_write`) and not where paths lead (`Workspace.locate_write`). So after
several files have been written, each place holds what it held before or what was written
there (`Workspace.entryAt?_writeAll`).
-/

namespace YangFormatter.Workspace

variable {workspace : Workspace} {path : Path} {names : List Text} {bytes old : List UInt8}

/-- A file is read at a place within the workspace. -/
theorem read_eq_ok_iff :
    workspace.read path = .ok bytes ↔
      ∃ names, workspace.locate path = .ok (.inside names) ∧
        workspace.entryAt? names = some (.file bytes) := by
  unfold read entry
  cases located : workspace.locate path with
  | error error => simp [bind, Except.bind]
  | ok location =>
      cases location with
      | inside names =>
          cases found : workspace.entryAt? names with
          | none => simp [bind, Except.bind, find?, found]
          | some entry => cases entry <;> simp [bind, Except.bind, find?, found]
      | outside | nowhere => simp [bind, Except.bind, find?]

/-- Writing changes the entry that the path leads to, and no other. -/
theorem lookup_write (located : workspace.locate path = .ok (.inside names)) (bytes : List UInt8)
    (other : List Text) :
    (workspace.write path bytes).entries.lookup other =
      (workspace.entries.lookup other).map fun entry =>
        if other = names then .file bytes else entry := by
  rw [write, located]
  dsimp only
  induction workspace.entries with
  | nil => rfl
  | cons first rest ih =>
      obtain ⟨key, entry⟩ := first
      by_cases same : other = key
      · simp [same]
      · have different : (other == key) = false := by simpa using same
        simp only [List.map_cons, List.lookup_cons, different, ih]

/-- Writing makes no entry and removes none. -/
theorem any_write (path : Path) (bytes : List UInt8) (test : List Text → Bool) :
    (workspace.write path bytes).entries.any (fun entry => test entry.1) =
      workspace.entries.any fun entry => test entry.1 := by
  unfold write
  split
  · rw [List.any_map]
    rfl
  · rfl

/-- Writing to a file changes what is found there, and nothing else. -/
theorem entryAt?_write (located : workspace.locate path = .ok (.inside names))
    (file : workspace.entryAt? names = some (.file old)) (bytes : List UInt8) (other : List Text) :
    (workspace.write path bytes).entryAt? other =
      if other = names then some (.file bytes) else workspace.entryAt? other := by
  have prefixes := workspace.any_write path bytes fun key => other.isPrefixOf key
  rw [entryAt?, lookup_write located, prefixes]
  by_cases same : other = names
  · subst same
    rw [if_pos rfl]
    rw [entryAt?] at file
    cases found : workspace.entries.lookup other with
    | some entry => simp
    | none =>
        rw [found] at file
        dsimp only at file
        split at file <;> cases file
  · rw [if_neg same, entryAt?]
    cases workspace.entries.lookup other with
    | some entry => simp [same]
    | none => rfl

/-- Whether a path can go on from an entry is all that following it looks at. -/
private theorem follow_congr {other : Workspace}
    (same : ∀ location, (workspace.find? location).map (· = .directory) =
      (other.find? location).map (· = .directory)) (location : Location) (names : List Text) :
    workspace.follow location names = other.follow location names := by
  induction names generalizing location with
  | nil => rfl
  | cons name names ih =>
      have here := same location
      rw [follow, follow]
      cases first : workspace.find? location with
      | none =>
          cases second : other.find? location with
          | none => rfl
          | some entry => simp [first, second] at here
      | some entry =>
          cases second : other.find? location with
          | none => simp [first, second] at here
          | some entry' =>
              cases entry <;> cases entry' <;> simp_all

/-- Writing to a file does not change where paths lead. -/
theorem locate_write (readable : workspace.read path = .ok old) (bytes : List UInt8)
    (other : Path) : (workspace.write path bytes).locate other = workspace.locate other := by
  obtain ⟨names, located, file⟩ := read_eq_ok_iff.mp readable
  rw [locate, locate]
  split
  · rfl
  · refine follow_congr (fun location => ?_) _ _
    cases location with
    | inside place =>
        rw [find?, find?, entryAt?_write located file]
        by_cases same : place = names
        · rw [if_pos same, same, file]
          simp
        · rw [if_neg same]
    | outside | nowhere => rfl

/-- A file that has been written to can still be read, and so can the others. -/
theorem exists_read_write (readable : workspace.read path = .ok old) (bytes : List UInt8)
    {other : Path} {content : List UInt8} (own : workspace.read other = .ok content) :
    ∃ content, (workspace.write path bytes).read other = .ok content := by
  obtain ⟨names, located, file⟩ := read_eq_ok_iff.mp readable
  obtain ⟨place, leads, found⟩ := read_eq_ok_iff.mp own
  have now := entryAt?_write located file bytes place
  have still := (locate_write readable bytes other).trans leads
  by_cases same : place = names
  · rw [if_pos same] at now
    exact ⟨bytes, read_eq_ok_iff.mpr ⟨place, still, now⟩⟩
  · rw [if_neg same] at now
    exact ⟨content, read_eq_ok_iff.mpr ⟨place, still, now.trans found⟩⟩

/-- The workspace after files have been written one after the other. -/
def writeAll (workspace : Workspace) : List (Path × List UInt8) → Workspace
  | [] => workspace
  | (path, bytes) :: writes => (workspace.write path bytes).writeAll writes

section

variable {writes : List (Path × List UInt8)}

/-- Files that can be read can be so after another is written. -/
private theorem readable_write
    (readable : ∀ write ∈ (path, bytes) :: writes, ∃ old, workspace.read write.1 = .ok old) :
    ∀ write ∈ writes, ∃ old, (workspace.write path bytes).read write.1 = .ok old := by
  intro write member
  obtain ⟨_, first⟩ := readable _ List.mem_cons_self
  obtain ⟨_, own⟩ := readable write (List.mem_cons_of_mem _ member)
  exact exists_read_write first bytes own

/-- Writing files that can be read does not change where paths lead. -/
theorem locate_writeAll (readable : ∀ write ∈ writes, ∃ old, workspace.read write.1 = .ok old)
    (other : Path) : (workspace.writeAll writes).locate other = workspace.locate other := by
  induction writes generalizing workspace with
  | nil => rfl
  | cons first writes ih =>
      obtain ⟨path, bytes⟩ := first
      obtain ⟨_, own⟩ := readable _ List.mem_cons_self
      rw [writeAll, ih (readable_write readable), locate_write own]

/-- After files have been written, a place holds what it held before, or what has been
written there. -/
theorem entryAt?_writeAll (readable : ∀ write ∈ writes, ∃ old, workspace.read write.1 = .ok old)
    (names : List Text) :
    ((∀ write ∈ writes, workspace.locate write.1 ≠ .ok (.inside names)) ∧
      (workspace.writeAll writes).entryAt? names = workspace.entryAt? names) ∨
    ∃ write ∈ writes, workspace.locate write.1 = .ok (.inside names) ∧
      (workspace.writeAll writes).entryAt? names = some (.file write.2) := by
  induction writes generalizing workspace with
  | nil => exact .inl ⟨fun _ member => (List.not_mem_nil member).elim, rfl⟩
  | cons first writes ih =>
      obtain ⟨path, bytes⟩ := first
      obtain ⟨_, own⟩ := readable _ List.mem_cons_self
      obtain ⟨place, located, file⟩ := read_eq_ok_iff.mp own
      have now := entryAt?_write located file bytes names
      simp only [writeAll, List.exists_mem_cons_iff, List.forall_mem_cons]
      rcases ih (readable_write readable) with ⟨elsewhere, kept⟩ | ⟨write, member, leads, holds⟩
      · simp only [locate_write own] at elsewhere
        by_cases same : names = place
        · rw [if_pos same] at now
          exact .inr (.inl ⟨same ▸ located, kept.trans now⟩)
        · rw [if_neg same] at now
          refine .inl ⟨⟨?_, elsewhere⟩, kept.trans now⟩
          rw [located]
          simpa using Ne.symm same
      · rw [locate_write own] at leads
        exact .inr (.inr ⟨write, member, leads, holds⟩)

end

end YangFormatter.Workspace
