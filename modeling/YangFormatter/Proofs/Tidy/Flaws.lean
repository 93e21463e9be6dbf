import YangFormatter.Proofs.Tree.Pieces
import YangFormatter.Tidy.Attempt

/-! # Trees without flaws

A tree that has been read from a text has no flaw of its own that stands in the way of tidying:
its strings have quotes and its concatenations have strings. So tidying it by attempt comes to
its end unless its blocks are nested deeper than the machine has calls
(`Tidy.attemptWithin_eq_iff`).
-/

namespace YangFormatter

/-- A value has what tidying looks for: quotes around strings, and a string to begin with. -/
def Value.Flawless : Value → Prop
  | .quoted text => text ≠ []
  | .concatenation fragments => fragments ≠ [] ∧ ∀ fragment ∈ fragments, fragment.text ≠ []
  | .number _ | .date _ | .other _ => True

/-- The strings of a value, with their quotes. -/
def Value.strings : Value → List Text
  | .quoted text => [text]
  | .concatenation fragments => fragments.map Fragment.text
  | .number _ | .date _ | .other _ => []

/-- A flawless value has no string without quotes. -/
theorem Value.Flawless.strings {value : Value} (sound : value.Flawless) :
    ∀ text ∈ value.strings, text ≠ [] := by
  cases value with
  | quoted text => exact List.forall_mem_singleton.mpr sound
  | concatenation fragments => exact List.forall_mem_map.mpr sound.2
  | number | date | other => exact fun _ member => (List.not_mem_nil member).elim

/-- A value that is made of tokens is flawless. -/
theorem Value.MadeOf.flawless {value : Value} (own : value.MadeOf Lexeme.WellFormed) :
    value.Flawless := by
  cases value with
  | quoted text => exact (Value.madeOf_quoted own).text_ne_nil
  | concatenation fragments =>
      obtain ⟨several, each⟩ := Value.madeOf_concatenation own
      refine ⟨fun empty => ?_, fun fragment member => (each fragment member).text.text_ne_nil⟩
      rw [empty] at several
      cases several
  | number | date | other => trivial

namespace Value

/-- Nothing goes wrong with the quotes of strings that have some. -/
theorem attemptDoubleQuotes_of_strings {value : Value}
    (quotes : ∀ text ∈ value.strings, text ≠ []) :
    value.attemptDoubleQuotes = ⟨value.doubleQuoted, none⟩ := by
  cases value with
  | quoted text =>
      cases text with
      | nil => exact (quotes [] List.mem_cons_self rfl).elim
      | cons first rest => rfl
  | concatenation fragments =>
      have each : fragments.all (fun fragment => !fragment.text.isEmpty) = true := by
        rw [List.all_eq_true]
        intro fragment member
        simpa using quotes fragment.text (List.mem_map_of_mem member)
      simp only [attemptDoubleQuotes, each, ↓reduceIte, doubleQuoted]
  | number | date | other => rfl

/-- A string with quotes has some when they are changed. -/
theorem doubleQuoted_ne_quoted_nil {value : Value}
    (quotes : ∀ text ∈ value.strings, text ≠ []) : value.doubleQuoted ≠ .quoted [] := by
  cases value with
  | quoted text =>
      intro same
      have empty : Quotation.doubleQuoted text = [] := Value.quoted.inj same
      unfold Quotation.doubleQuoted at empty
      split at empty
      · cases empty
      · exact quotes text List.mem_cons_self empty
  | concatenation | number | date | other => exact nofun

/-- A flawless value does not become a concatenation of no strings. -/
theorem tidied_ne_concatenation_nil {value : Value} (sound : value.Flawless) :
    (value.doubleQuoted.mapQuoted Quotation.stripped).mapQuoted Quotation.dedented ≠
      .concatenation [] := by
  cases value with
  | concatenation fragments =>
      intro same
      exact sound.1 (List.map_eq_nil_iff.mp (Value.concatenation.inj same))
  | quoted | number | date | other => exact nofun

end Value

/-- Nothing goes wrong with a header whose value is flawless. -/
theorem Header.attemptTidy_of_flawless {header : Header}
    (sound : ∀ value ∈ header.value, value.Flawless) :
    header.attemptTidy = ⟨header.tidied, none⟩ := by
  obtain ⟨keyword, keywordComments, given, valueComments, postComments⟩ := header
  cases given with
  | none => rfl
  | some value =>
      have own := sound value rfl
      have quotes := Value.attemptDoubleQuotes_of_strings own.strings
      have string := Value.doubleQuoted_ne_quoted_nil own.strings
      have strings := Value.tidied_ne_concatenation_nil own
      simp [attemptTidy, attemptDoubleQuotes, quotes, Attempt.map, Attempt.andThen, attemptStrip,
        string, attemptDedent, stripped, dedented, mapValue, attemptRelocate, strings, tidied,
        doubleQuoted]

namespace Tidy

variable {machine : Machine} {style : Style} {blocks : Nat}

/-- What stops tidying where nodes stand in so many blocks. -/
def depthFlaw? (machine : Machine) (blocks : Nat) : Option Flaw :=
  if machine.carries (blocks + 1) then none else some .tooDeep

/-- Blocks are not too deep exactly if the machine carries their calls. -/
theorem depthFlaw?_eq_none_iff :
    depthFlaw? machine blocks = none ↔ machine.carries (blocks + 1) = true := by
  simp [depthFlaw?]

/-- The deeper of two nestings is what matters. -/
theorem depthFlaw?_max (machine : Machine) (blocks others : Nat) :
    (depthFlaw? machine blocks).or (depthFlaw? machine others) =
      depthFlaw? machine (max blocks others) := by
  have deeper : ∀ {most fewer : Nat}, fewer ≤ most → machine.carries (most + 1) = true →
      machine.carries (fewer + 1) = true :=
    fun le room => Machine.carries_of_le room (Nat.succ_le_succ le)
  unfold depthFlaw?
  rcases Nat.le_total blocks others with le | le
  · rw [Nat.max_eq_right le]
    cases shallow : machine.carries (blocks + 1) with
    | true => rfl
    | false =>
        rw [if_neg fun room => Bool.false_ne_true (shallow.symm.trans (deeper le room))]
        rfl
  · rw [Nat.max_eq_left le]
    cases room : machine.carries (blocks + 1) with
    | true =>
        rw [if_pos (deeper le room)]
        rfl
    | false => rfl

/-- Only calls go wrong with nodes side by side, if only calls go wrong with each. -/
theorem flaw_attemptNodes {nodes : List Node} (room : depthFlaw? machine blocks = none)
    (each : ∀ node ∈ nodes, (attemptNode machine style blocks node).flaw =
      depthFlaw? machine (blocks + node.height fun _ => 0)) :
    (attemptNodes machine style blocks nodes).flaw =
      depthFlaw? machine (blocks + Node.nesting nodes) := by
  induction nodes with
  | nil => exact room.symm
  | cons node rest ih =>
      obtain ⟨first, others⟩ := List.forall_mem_cons.mp each
      have split : (attemptNodes machine style blocks (node :: rest)).flaw =
          (attemptNode machine style blocks node).flaw.or
            (attemptNodes machine style blocks rest).flaw := by
        rw [attemptNodes]
        cases (attemptNode machine style blocks node).flaw <;> rfl
      rw [split, first, ih others, depthFlaw?_max, Nat.add_max_add_left]
      rfl

/-- Within a tree that is made of tokens, only the calls of the machine can stop tidying. -/
theorem flaw_attemptNode {node : Node} (made : node.MadeOf Lexeme.WellFormed)
    (room : depthFlaw? machine blocks = none) :
    (attemptNode machine style blocks node).flaw =
      depthFlaw? machine (blocks + node.height fun _ => 0) := by
  induction made generalizing blocks with
  | leaf own =>
      simp only [attemptNode, Attempt.map]
      rw [Header.attemptTidy_of_flawless fun value given => (own.value value given).flawless]
      exact room.symm
  | @block head children own _ ih =>
      have sound := Header.attemptTidy_of_flawless fun value given =>
        (own.value value given).flawless
      rw [attemptNode, Node.height, ← Nat.add_assoc, Nat.add_right_comm]
      cases deeper : machine.carries (blocks + 2) with
      | true =>
          have within : depthFlaw? machine (blocks + 1) = none :=
            depthFlaw?_eq_none_iff.mpr deeper
          have inner : (attemptNodes machine style (blocks + 1) children).flaw =
              depthFlaw? machine (blocks + 1 + Node.nesting children) :=
            flaw_attemptNodes within fun child member => ih child member within
          rw [Node.nesting] at inner
          rw [← inner, if_pos rfl]
          cases flawed : (attemptNodes machine style (blocks + 1) children).flaw with
          | some flaw => simp only [flawed]
          | none => simp only [flawed, Attempt.map, sound]
      | false =>
          rw [if_neg Bool.false_ne_true, depthFlaw?, if_neg]
          intro all
          have fewer := Machine.carries_of_le all (Nat.succ_le_succ (Nat.le_add_right _ _))
          exact Bool.false_ne_true (deeper.symm.trans fewer)
  | comment | emptyLine => exact room.symm

/-- Only calls go wrong when the tree of a text is tidied. -/
theorem flaw_attemptWithin {nodes : List Node} (parent : Option Text)
    (made : ∀ node ∈ nodes, node.MadeOf Lexeme.WellFormed) :
    (attemptWithin machine style parent nodes).flaw = depthFlaw? machine (Node.nesting nodes) := by
  rw [attemptWithin]
  cases room : machine.carries 1 with
  | true =>
      have shallow : depthFlaw? machine 0 = none := depthFlaw?_eq_none_iff.mpr room
      have inner : (attemptNodes machine style 0 nodes).flaw =
          depthFlaw? machine (0 + Node.nesting nodes) :=
        flaw_attemptNodes shallow fun node member =>
          flaw_attemptNode (made node member) shallow
      rw [Nat.zero_add] at inner
      rw [← inner, if_pos rfl, Attempt.andThen]
      cases flawed : (attemptNodes machine style 0 nodes).flaw with
      | some flaw => exact flawed
      | none => rfl
  | false =>
      rw [if_neg Bool.false_ne_true, depthFlaw?, if_neg]
      intro all
      have fewer := Machine.carries_of_le all (Nat.succ_le_succ (Nat.zero_le _))
      exact Bool.false_ne_true (room.symm.trans fewer)

/-- Tidying a tree that is made of tokens comes to its end exactly if the machine has calls for
its blocks. -/
theorem attemptWithin_eq_iff (parent : Option Text) {nodes : List Node}
    (made : ∀ node ∈ nodes, node.MadeOf Lexeme.WellFormed) :
    attemptWithin machine style parent nodes = ⟨within style parent nodes, none⟩ ↔
      machine.carries (Node.nesting nodes + 1) = true := by
  have flaw : (attemptWithin machine style parent nodes).flaw = _ :=
    flaw_attemptWithin parent made
  rw [← depthFlaw?_eq_none_iff, ← flaw]
  refine ⟨congrArg Attempt.flaw, fun sound => ?_⟩
  rw [← result_attemptWithin parent nodes sound]
  exact congrArg (Attempt.mk _) sound

end Tidy

end YangFormatter
