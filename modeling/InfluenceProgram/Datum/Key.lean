import InfluenceProgram.Datum.Order
import InfluenceProgram.Keyed

/-!
Data as keys of associations. Keys of the same value are one key, so the first of them stays; a
record has no fixed value and is no key.
-/

namespace InfluenceProgram

structure Key where
  datum : Datum
deriving Inhabited, Repr

instance : BEq Key := ⟨fun a b => a.datum.same b.datum⟩

namespace Datum

mutual

/-- Whether a datum can be a key. -/
def isKey : Datum → Bool
  | list items => areKeys items
  | record _ => false
  | _ => true

def areKeys : List Datum → Bool
  | [] => true
  | item :: rest => item.isKey && areKeys rest

end

def key (d : Datum) : Except Fault Key := if d.isKey then .ok ⟨d⟩ else .error .wrongType

end Datum

end InfluenceProgram
