/-! # Machines

Formatting takes memory for its indentations, and it takes calls that wait for one another
while the blocks within a block are worked on. How much there is of both is a matter of the
machine.
-/

namespace YangFormatter

/-- What a machine has room for. Where there is no bound there is room for everything. -/
structure Machine where
  /-- The number of columns of the widest indentation that there is memory for. -/
  columns : Option Nat := none
  /-- How many calls can wait for one another. Only calls for statements and for the nodes of a
  block are counted, and not those of the helpers that they end with. -/
  calls : Option Nat := none
deriving DecidableEq, Repr

namespace Machine

/-- Whether there is memory for an indentation of so many columns. -/
def stores (machine : Machine) (columns : Int) : Bool :=
  machine.columns.all fun (bound : Nat) => columns ≤ bound

/-- Whether so many calls can wait for one another. -/
def carries (machine : Machine) (calls : Nat) : Bool :=
  machine.calls.all fun bound => calls ≤ bound

variable {machine : Machine}

/-- There is memory for an indentation exactly if it keeps to the bound, if there is one. -/
theorem stores_iff {columns : Int} :
    machine.stores columns = true ↔ ∀ bound ∈ machine.columns, columns ≤ bound := by
  cases bounds : machine.columns <;> simp [stores, bounds]

/-- There is room for some calls exactly if they keep to the bound, if there is one. -/
theorem carries_iff {calls : Nat} :
    machine.carries calls = true ↔ ∀ bound ∈ machine.calls, calls ≤ bound := by
  cases bounds : machine.calls <;> simp [carries, bounds]

/-- Where there is memory for an indentation, there is memory for a narrower one. -/
theorem stores_of_le {columns fewer : Int} (room : machine.stores columns = true)
    (le : fewer ≤ columns) : machine.stores fewer = true :=
  stores_iff.mpr fun bound given => Int.le_trans le (stores_iff.mp room bound given)

/-- Where there is room for some calls, there is room for fewer. -/
theorem carries_of_le {calls fewer : Nat} (room : machine.carries calls = true)
    (le : fewer ≤ calls) : machine.carries fewer = true :=
  carries_iff.mpr fun bound given => Nat.le_trans le (carries_iff.mp room bound given)

end Machine

end YangFormatter
