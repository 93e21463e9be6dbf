import YangFormatter.Format.Failure
import YangFormatter.Proofs.Format.RoundTrip
import YangFormatter.Proofs.Layout.Levels

/-! # What formatting comes to on a machine

Of all that can break formatting off, a source can only have problems, and a machine can lack
the room that its tree takes. So a source that has a tree is formatted exactly if the machine
affords the tree, and then to the text of its layout (`Style.attemptFormat_eq_ok_iff`).
-/

namespace YangFormatter.Style

variable {style : Style} {machine : Machine} {source : Source} {nodes : List Node}
  {problem : Problem}

/-- A tree that was read has no flaw of its own, so its nesting and then its layout are all that
can break formatting off. -/
theorem attemptTree_eq (made : ∀ node ∈ nodes, node.MadeOf Lexeme.WellFormed) :
    style.attemptTree machine nodes =
      match Tidy.depthFlaw? machine (Node.nesting nodes) with
      | some flaw => .error (.flaw flaw)
      | none => (Layout.tree? machine style (Tidy.tree style nodes)).mapError .obstacle := by
  rw [attemptTree, Tidy.flaw_attemptWithin none made]
  cases flawed : Tidy.depthFlaw? machine (Node.nesting nodes) with
  | some flaw => rfl
  | none =>
      rw [(Tidy.attemptWithin_eq_iff none made).mpr (Tidy.depthFlaw?_eq_none_iff.mp flawed)]
      rfl

/-- A tree is formatted exactly if the machine has room for it. -/
theorem attemptTree_eq_ok_iff (made : ∀ node ∈ nodes, node.MadeOf Lexeme.WellFormed)
    {text : Text} :
    style.attemptTree machine nodes = .ok text ↔
      machine.Affords style nodes ∧ style.formatTree nodes = text := by
  rw [attemptTree_eq made, Machine.affords_iff, ← Tidy.depthFlaw?_eq_none_iff, and_assoc,
    ← Layout.tree?_tidied_eq_ok_iff made]
  cases Tidy.depthFlaw? machine (Node.nesting nodes) with
  | some flaw => exact iff_of_false nofun fun both => nomatch both.1
  | none => cases Layout.tree? machine style (Tidy.tree style nodes) <;> simp [Except.mapError]

/-- A source that has a tree is formatted exactly if the machine affords the tree, and then to
the text of its layout. -/
theorem attemptFormat_eq_ok_iff (parsed : source.parse = .ok nodes) {text : Text} :
    style.attemptFormat machine source = .ok text ↔
      machine.Affords style nodes ∧ style.formatTree nodes = text := by
  rw [attemptFormat, parsed]
  exact attemptTree_eq_ok_iff (source.wellFormed_of_parse parsed)

/-- A source whose tree the machine has room for is formatted. -/
theorem attemptFormat_of_affords (parsed : source.parse = .ok nodes)
    (affords : machine.Affords style nodes) :
    style.attemptFormat machine source = .ok (style.formatTree nodes) :=
  (attemptFormat_eq_ok_iff parsed).mpr ⟨affords, rfl⟩

theorem attemptFormat_of_error (failed : source.parse = .error problem) (style : Style)
    (machine : Machine) : style.attemptFormat machine source = .error (.problem problem) := by
  rw [attemptFormat, failed]

/-- Where the machine does not afford a tree, a lack of room breaks formatting off. -/
theorem exists_attemptFormat_eq_error (parsed : source.parse = .ok nodes)
    (lacks : ¬ machine.Affords style nodes) :
    ∃ failure, style.attemptFormat machine source = .error failure ∧
      failure.lacksRoom = true := by
  have made := source.wellFormed_of_parse parsed
  have fails : ∀ text, style.attemptTree machine nodes ≠ .ok text := fun text formatted =>
    lacks ((attemptTree_eq_ok_iff made).mp formatted).1
  rw [attemptFormat, parsed]
  dsimp only
  rw [attemptTree_eq made] at fails ⊢
  unfold Tidy.depthFlaw? at fails ⊢
  cases nests : machine.carries (Node.nesting nodes + 1) with
  | false => exact ⟨_, rfl, rfl⟩
  | true =>
      rw [nests] at fails
      cases laidOut : Layout.tree? machine style (Tidy.tree style nodes) with
      | ok text =>
          rw [laidOut] at fails
          exact (fails text rfl).elim
      | error obstacle =>
          have lack : obstacle ≠ .noFragment := by
            rintro rfl
            exact Layout.tree?_ne_noFragment (Tidy.complete_tree made style) laidOut
          refine ⟨.obstacle obstacle, rfl, ?_⟩
          cases obstacle with
          | noFragment => exact (lack rfl).elim
          | uncountable | noMemory | tooDeep => rfl

/-- A source that is formatted has a tree, which the machine affords. -/
theorem exists_parse_of_attemptFormat {text : Text}
    (formatted : style.attemptFormat machine source = .ok text) :
    ∃ nodes, source.parse = .ok nodes ∧ machine.Affords style nodes ∧
      style.formatTree nodes = text := by
  cases parsed : source.parse with
  | error problem =>
      rw [attemptFormat_of_error parsed] at formatted
      cases formatted
  | ok nodes => exact ⟨nodes, rfl, (attemptFormat_eq_ok_iff parsed).mp formatted⟩

end YangFormatter.Style
