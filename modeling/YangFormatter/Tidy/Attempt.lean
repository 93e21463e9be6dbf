import YangFormatter.Machine
import YangFormatter.Tidy.Tree

/-! # Tidying by attempt

A tree made by hand may have flaws that stand in the way of tidying: a string without
quotes, or a concatenation of no strings. Any tree may be nested deeper than a machine has
calls. Tidying then stops at the first flaw and leaves what it has done by then. Where there
is no flaw, `Tidy.result_attemptWithin` says that the result is the same as that of tidying.
-/

namespace YangFormatter

/-- Why a tree cannot be tidied. -/
inductive Flaw where
  /-- A string has no characters, not even quotes. -/
  | noQuote
  /-- A concatenation has no strings. -/
  | noFragment
  /-- Blocks are nested deeper than calls can wait for one another. -/
  | tooDeep
deriving DecidableEq, Repr

/-- What some work has come to when it is done or when a flaw has stopped it. -/
structure Attempt (α : Type) where
  /-- What there is by then. -/
  result : α
  /-- The flaw, if there was one. -/
  flaw : Option Flaw := none
deriving DecidableEq, Repr

namespace Attempt

variable {α β : Type}

/-- Puts what there is into something larger. -/
def map (embed : α → β) (attempt : Attempt α) : Attempt β :=
  ⟨embed attempt.result, attempt.flaw⟩

/-- Goes on, unless a flaw has stopped the work. -/
def andThen (attempt : Attempt α) (more : α → Attempt α) : Attempt α :=
  match attempt.flaw with
  | some _ => attempt
  | none => more attempt.result

/-- Work that no flaw has stopped was not stopped before it went on. -/
theorem andThen_of_flaw_eq_none {attempt : Attempt α} {more : α → Attempt α}
    (sound : (attempt.andThen more).flaw = none) :
    attempt.flaw = none ∧ attempt.andThen more = more attempt.result := by
  cases flawed : attempt.flaw with
  | some flaw => simp [andThen, flawed] at sound
  | none => exact ⟨rfl, by simp [andThen, flawed]⟩

end Attempt

/-- Writes the strings of a value with double quotes, up to the first that has
none. -/
def Value.attemptDoubleQuotes : Value → Attempt Value
  | .quoted [] => ⟨.quoted [], some .noQuote⟩
  | .concatenation fragments =>
      let sound (fragment : Fragment) : Bool := !fragment.text.isEmpty
      if fragments.all sound then
        ⟨.concatenation (fragments.map Fragment.doubleQuoted), none⟩
      else
        let reached := (fragments.takeWhile sound).map Fragment.doubleQuoted
        ⟨.concatenation (reached ++ fragments.dropWhile sound), some .noQuote⟩
  | value => ⟨value.doubleQuoted, none⟩

/-- Where all strings have quotes, they are written as formatting does it. -/
theorem Value.result_attemptDoubleQuotes (value : Value)
    (sound : value.attemptDoubleQuotes.flaw = none) :
    value.attemptDoubleQuotes.result = value.doubleQuoted := by
  cases value with
  | quoted text => cases text <;> simp_all [attemptDoubleQuotes, doubleQuoted]
  | concatenation fragments =>
      simp only [attemptDoubleQuotes] at sound ⊢
      split at sound
      · next quoted => rw [if_pos quoted, doubleQuoted]
      · cases sound
  | number _ | date _ | other _ => rfl

namespace Header

/-- Writes strings with double quotes where possible. -/
def attemptDoubleQuotes (header : Header) : Attempt Header :=
  match header.value with
  | none => ⟨header, none⟩
  | some value => value.attemptDoubleQuotes.map fun value => { header with value := some value }

/-- Removes the blanks at both ends of a string. -/
def attemptStrip (header : Header) : Attempt Header :=
  if header.value = some (.quoted []) then ⟨header, some .noQuote⟩ else ⟨header.stripped, none⟩

/-- Removes the margin of a string of several lines. -/
def attemptDedent (header : Header) : Attempt Header :=
  ⟨header.dedented, none⟩

/-- Moves the comments inside a statement behind its terminator. -/
def attemptRelocate (header : Header) : Attempt Header :=
  if header.value = some (.concatenation []) then ⟨header, some .noFragment⟩
  else ⟨header.relocated, none⟩

/-- All that formatting does to one statement. -/
def attemptTidy (header : Header) : Attempt Header :=
  ((header.attemptDoubleQuotes.andThen attemptStrip).andThen attemptDedent).andThen
    attemptRelocate

/-- Where all strings have quotes, they are written as formatting does it. -/
theorem result_attemptDoubleQuotes (header : Header)
    (sound : header.attemptDoubleQuotes.flaw = none) :
    header.attemptDoubleQuotes.result = header.doubleQuoted := by
  obtain ⟨keyword, keywordComments, given, valueComments, postComments⟩ := header
  cases given with
  | none => rfl
  | some value =>
      have written := value.result_attemptDoubleQuotes sound
      simp [attemptDoubleQuotes, Attempt.map, doubleQuoted, mapValue, written]

/-- Where a string has quotes, it is stripped as formatting does it. -/
theorem result_attemptStrip (header : Header) (sound : header.attemptStrip.flaw = none) :
    header.attemptStrip.result = header.stripped := by
  unfold attemptStrip at sound ⊢
  split at sound <;> simp_all

/-- Where a concatenation has strings, its comments are moved as formatting does it. -/
theorem result_attemptRelocate (header : Header) (sound : header.attemptRelocate.flaw = none) :
    header.attemptRelocate.result = header.relocated := by
  unfold attemptRelocate at sound ⊢
  split at sound <;> simp_all

/-- Where nothing is wrong with a statement, it is tidied as formatting does it. -/
theorem result_attemptTidy (header : Header) (sound : header.attemptTidy.flaw = none) :
    header.attemptTidy.result = header.tidied := by
  obtain ⟨dedented, relocating⟩ := Attempt.andThen_of_flaw_eq_none sound
  obtain ⟨stripped, dedenting⟩ := Attempt.andThen_of_flaw_eq_none dedented
  obtain ⟨quoted, stripping⟩ := Attempt.andThen_of_flaw_eq_none stripped
  have relocated := result_attemptRelocate _ ((congrArg Attempt.flaw relocating).symm.trans sound)
  have bare := result_attemptStrip _ ((congrArg Attempt.flaw stripping).symm.trans stripped)
  calc
    header.attemptTidy.result = _ := congrArg Attempt.result relocating
    _ = _ := relocated
    _ = header.tidied := by
      rw [dedenting, attemptDedent, stripping, bare, result_attemptDoubleQuotes header quoted,
        tidied]

end Header

/-- A node with the header of another one, if both are statements. -/
def Node.withHeaderOf (other : Node) : Node → Node
  | .leaf header => .leaf (other.header?.getD header)
  | .block header children => .block (other.header?.getD header) children
  | node => node

namespace Tidy

/-- Does something to the header of a statement. -/
def attemptOwn (change : Header → Attempt Header) : Node → Attempt Node
  | .leaf header => (change header).map .leaf
  | .block header children => (change header).map (.block · children)
  | node => ⟨node, none⟩

/-- Does something to the headers of nodes side by side, but to none within them. -/
def attemptEach (change : Header → Attempt Header) : List Node → Attempt (List Node)
  | [] => ⟨[], none⟩
  | node :: rest =>
      let first := attemptOwn change node
      match first.flaw with
      | some flaw => ⟨first.result :: rest, some flaw⟩
      | none => (attemptEach change rest).map (first.result :: ·)

/-- What has been done to the headers of some nodes, and then to those within them. -/
def attemptBoth (own within : Attempt (List Node)) : Attempt (List Node) :=
  match own.flaw with
  | some _ => own
  | none => within.map (List.zipWith Node.withHeaderOf own.result)

mutual

/-- Does something to the headers within a node. -/
def attemptInside (change : Header → Attempt Header) : Node → Attempt Node
  | .block header children =>
      (attemptBoth (attemptEach change children) (attemptInsides change children)).map
        (.block header)
  | node => ⟨node, none⟩

/-- Does something to the headers within each of some nodes. -/
def attemptInsides (change : Header → Attempt Header) : List Node → Attempt (List Node)
  | [] => ⟨[], none⟩
  | node :: rest =>
      let first := attemptInside change node
      match first.flaw with
      | some flaw => ⟨first.result :: rest, some flaw⟩
      | none => (attemptInsides change rest).map (first.result :: ·)

end

/-- Does something to the headers of all statements: of those side by side first,
and then within each of them. -/
def attemptHeaders (change : Header → Attempt Header) (nodes : List Node) :
    Attempt (List Node) :=
  attemptBoth (attemptEach change nodes) (attemptInsides change nodes)

mutual

/-- Tidies a statement that stands in so many blocks, after all that is in its own. That takes
one more call. -/
def attemptNode (machine : Machine) (style : Style) (blocks : Nat) : Node → Attempt Node
  | .leaf header => header.attemptTidy.map .leaf
  | .block header children =>
      if machine.carries (blocks + 2) then
        let inner := attemptNodes machine style (blocks + 1) children
        match inner.flaw with
        | some flaw => ⟨.block header inner.result, some flaw⟩
        | none =>
            let arranged := arrange style (some header.keyword) inner.result
            header.attemptTidy.map (.block · arranged)
      else
        ⟨.block header children, some .tooDeep⟩
  | node => ⟨node, none⟩

/-- Tidies each of some nodes. -/
def attemptNodes (machine : Machine) (style : Style) (blocks : Nat) :
    List Node → Attempt (List Node)
  | [] => ⟨[], none⟩
  | node :: rest =>
      let first := attemptNode machine style blocks node
      match first.flaw with
      | some flaw => ⟨first.result :: rest, some flaw⟩
      | none => (attemptNodes machine style blocks rest).map (first.result :: ·)

end

/-- Tidies nodes that stand in the block of a keyword, or in none. -/
def attemptWithin (machine : Machine) (style : Style) (parent : Option Text)
    (nodes : List Node) : Attempt (List Node) :=
  if machine.carries 1 then
    (attemptNodes machine style 0 nodes).andThen fun tidied => ⟨arrange style parent tidied, none⟩
  else
    ⟨nodes, some .tooDeep⟩

section

variable {machine : Machine} {style : Style}

mutual

/-- Where nothing is wrong with a node, it is tidied as formatting does it. -/
theorem result_attemptNode {blocks : Nat} (node : Node)
    (sound : (attemptNode machine style blocks node).flaw = none) :
    (attemptNode machine style blocks node).result =
      mapBlock (arrange style) (mapHeader Header.tidied node) := by
  match node with
  | .leaf header =>
      simp only [attemptNode, Attempt.map] at sound ⊢
      simp [mapHeader, mapBlock, Header.result_attemptTidy header sound]
  | .block header children =>
      cases room : machine.carries (blocks + 2) with
      | false => simp [attemptNode, room] at sound
      | true =>
          simp only [attemptNode, room, ↓reduceIte] at sound ⊢
          cases flawed : (attemptNodes machine style (blocks + 1) children).flaw with
          | some flaw => simp [flawed] at sound
          | none =>
              simp only [flawed, Attempt.map] at sound ⊢
              simp [mapHeader, mapBlock, Header.result_attemptTidy header sound,
                result_attemptNodes children flawed, Header.tidied, Header.relocated,
                Header.dedented, Header.stripped, Header.doubleQuoted, Header.mapValue]
  | .comment _ => rfl
  | .emptyLine _ => rfl

/-- Where nothing is wrong with some nodes, they are tidied as formatting does it. -/
theorem result_attemptNodes {blocks : Nat} (nodes : List Node)
    (sound : (attemptNodes machine style blocks nodes).flaw = none) :
    (attemptNodes machine style blocks nodes).result =
      mapEachBlock (arrange style) (mapHeaders Header.tidied nodes) := by
  match nodes with
  | [] => rfl
  | node :: rest =>
      simp only [attemptNodes] at sound ⊢
      cases flawed : (attemptNode machine style blocks node).flaw with
      | some flaw => simp [flawed] at sound
      | none =>
          simp only [flawed, Attempt.map] at sound ⊢
          simp [mapHeaders, mapEachBlock, result_attemptNode node flawed,
            result_attemptNodes rest sound]

end

/-- Where nothing is wrong with a tree, tidying it by attempt is tidying it. -/
theorem result_attemptWithin (parent : Option Text) (nodes : List Node)
    (sound : (attemptWithin machine style parent nodes).flaw = none) :
    (attemptWithin machine style parent nodes).result = within style parent nodes := by
  unfold attemptWithin at sound ⊢
  split at sound
  next room =>
    rw [if_pos room]
    obtain ⟨whole, all⟩ := Attempt.andThen_of_flaw_eq_none sound
    rw [all, result_attemptNodes nodes whole]
    rfl
  next => cases sound

end

end Tidy

end YangFormatter
