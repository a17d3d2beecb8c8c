import InfluenceProgram.Datum.Conversion
import InfluenceProgram.Datum.Key

/-!
Tables as they are given: lists of pairs of a key and a value, or records. Of two values with one
key the later one counts, in the place of the earlier one.
-/

namespace InfluenceProgram.Datum

/-- A datum as a node; a list as it stands is none. -/
def nodeKey : Datum → Except Fault Key
  | list _ => .error .wrongType
  | d => d.key

/-- A table with keys and values that are still to be read; a value is read before its key. -/
def tableBy {β : Type} (key : Datum → Except Fault Key) (value : Datum → Except Fault β)
    (d : Datum) : Except Fault (Keyed Key β) := do
  let pairs ← (← d.items).mapM fun entry => do
    let (k, v) ← entry.pair
    let v ← value v
    return (← key k, v)
  return Keyed.ofPairs pairs

def table (d : Datum) : Except Fault (Keyed Key Datum) := d.tableBy key .ok

def nodeTable {β : Type} (value : Datum → Except Fault β) (d : Datum) :
    Except Fault (Keyed Key β) :=
  d.tableBy nodeKey value

/-- The keys of a table without values, each once. -/
def distinctKeys (d : Datum) : Except Fault (List Datum) := do
  return distinct ((← (← d.items).mapM key).map Key.datum)

def fields : Datum → Except Fault (Keyed String Datum)
  | record fs => .ok (Keyed.ofPairs fs)
  | _ => .error .fieldsExpected

end InfluenceProgram.Datum
