/-!
Associations that keep the order in which their keys came. Setting a key that is there replaces
its value and leaves it in its place.
-/

namespace InfluenceProgram

abbrev Keyed (κ β : Type) := List (κ × β)

namespace Keyed

variable {κ β : Type} [BEq κ]

def get? (k : κ) : Keyed κ β → Option β
  | [] => none
  | (k', v) :: rest => if k' == k then some v else get? k rest

def set (k : κ) (v : β) : Keyed κ β → Keyed κ β
  | [] => [(k, v)]
  | (k', v') :: rest => if k' == k then (k', v) :: rest else (k', v') :: set k v rest

/-- The association of a list of pairs; a later pair of one key wins. -/
def ofPairs (pairs : List (κ × β)) : Keyed κ β := pairs.foldl (fun m p => m.set p.1 p.2) []

/-- Changes the value of a key, or sets it if the key is new. -/
def update (k : κ) (initial : β) (f : β → β) (m : Keyed κ β) : Keyed κ β :=
  m.set k (f ((m.get? k).getD initial))

def keys (m : Keyed κ β) : List κ := m.map (·.1)

def values (m : Keyed κ β) : List β := m.map (·.2)

end Keyed

end InfluenceProgram
