import InfluenceProgram.Proofs.Enumeration

/-!
Walks through the paths, whatever is done with them. Taking further paths of one walk moves its own
place alone, and by as many paths as it takes. So what a walk yields in a whole run is the beginning
of the enumeration, as long as what was asked of it, however many other walks begin and go on in
between. Only the states of every node have to be held for that, even where there is no path.
-/

set_option autoImplicit false

namespace InfluenceProgram

namespace Walks

/-- What can be done with the walks through some paths. -/
inductive Event where
  /-- Another walk begins. -/
  | start
  /-- Further paths of one walk are taken, up to a limit. -/
  | advance (walk : Int) (limit : Datum)
deriving Repr

def Event.begins : Event → Bool
  | start => true
  | advance _ _ => false

/-- The walks after an event. An event that is refused changes nothing. -/
def step (w : Walks) : Event → Walks
  | .start =>
    match w.begin with
    | .ok (after, _) => after
    | .error _ => w
  | .advance walk limit =>
    match w.advance walk limit with
    | .ok (_, after) => after
    | .error _ => w

/-- The paths that an event takes from the walk of a number. -/
def taken (w : Walks) (k : Nat) : Event → List Path
  | .start => []
  | .advance walk limit =>
    if Position.offset? w.places.length walk = some k then
      match w.advance walk limit with
      | .ok (found, _) => found
      | .error _ => []
    else []

/-- How many paths an event asks of the walk of a number; all that are left without a limit. -/
def asked (w : Walks) (k : Nat) : Event → Nat
  | .start => 0
  | .advance walk limit =>
    if Position.offset? w.places.length walk = some k then
      match readLimit limit with
      | .ok limit => limit.getD (Path.number w.counts)
      | .error _ => 0
    else 0

def run (w : Walks) (events : List Event) : Walks := events.foldl step w

/-- All paths that a run takes from the walk of a number. -/
def yielded (w : Walks) (k : Nat) : List Event → List Path
  | [] => []
  | e :: events => w.taken k e ++ (w.step e).yielded k events

/-- How many paths a run asks of the walk of a number. -/
def demand (w : Walks) (k : Nat) : List Event → Nat
  | [] => 0
  | e :: events => w.asked k e + (w.step e).demand k events

/-- The rank of the next path of the walk of a number, also before this walk begins. -/
def place (w : Walks) (k : Nat) : Nat := w.places.getD k 0

variable {w : Walks}

/-- A walk that has begun takes the paths from its place on. -/
theorem advance_eq {walk : Int} {k : Nat} (begun : Position.offset? w.places.length walk = some k)
    (limit : Datum) :
    w.advance walk limit = (readLimit limit).map fun limit =>
      let found := ((paths w.counts).drop (w.place k)).take (limit.getD (Path.number w.counts))
      (found, { w with places := w.places.set k (w.place k + found.length) }) := by
  have inside : k < w.places.length := Position.offset?_lt begun
  have found : Position.pick .outsideList w.places walk = .ok (w.place k) := by
    simp only [Position.pick, begun, List.getElem?_eq_getElem inside, place,
      List.getD_eq_getElem _ _ inside]
  rw [advance, found, Success.ok_bind]
  cases readLimit limit with
  | error fault => rfl
  | ok limit =>
      rw [Success.ok_bind, stretch_eq, begun]
      rfl

/-- Only walks that have begun go on. -/
theorem advance_error {walk : Int} (missing : Position.offset? w.places.length walk = none)
    (limit : Datum) : ∃ fault, w.advance walk limit = .error fault := by
  rw [advance, Position.pick, missing]
  split
  · rename_i impossible
    cases impossible
  · split
    · exact ⟨_, rfl⟩
    · exact ⟨_, rfl⟩

/-- Each walk stays on the paths, takes as many as an event asks of it, and moves past these. -/
structure Stepped (w : Walks) (k : Nat) (e : Event) : Prop where
  counts : (w.step e).counts = w.counts
  taken : w.taken k e = ((paths w.counts).drop (w.place k)).take (w.asked k e)
  place : (w.step e).place k = w.place k + (w.taken k e).length

/-- A walk is started at the first path, or there is no room for it and nothing changes. -/
theorem step_start (w : Walks) : w.step .start = w.start.1 ∨ w.step .start = w := by
  rw [step, begin, Path.walking]
  cases Path.holdable w.counts with
  | error fault => exact .inr rfl
  | ok _ => exact .inl rfl

theorem stepped_start (w : Walks) (k : Nat) : w.Stepped k .start := by
  have appended : (w.places ++ [0]).getD k 0 = w.places.getD k 0 := by
    rcases Nat.lt_or_ge k w.places.length with old | new
    · rw [List.getD_append _ _ _ _ old]
    · rw [List.getD_append_right _ _ _ _ new, List.getD_eq_default _ _ new]
      cases k - w.places.length with
      | zero => rfl
      | succ _ => rfl
  rcases w.step_start with started | kept
  · exact ⟨by rw [started]; rfl, rfl, by rw [started]; exact appended⟩
  · exact ⟨by rw [kept], rfl, by rw [kept]; rfl⟩

theorem stepped_advance (w : Walks) (k : Nat) (walk : Int) (limit : Datum) :
    w.Stepped k (.advance walk limit) := by
  cases begun : Position.offset? w.places.length walk with
  | none =>
      obtain ⟨fault, refused⟩ := advance_error begun limit
      constructor <;> simp [step, taken, asked, refused, begun]
  | some n =>
      have moved := advance_eq begun limit
      have inside : n < w.places.length := Position.offset?_lt begun
      cases read : readLimit limit with
      | error fault =>
          rw [read] at moved
          constructor <;> simp [step, taken, asked, moved, read, Except.map]
      | ok count =>
          rw [read] at moved
          by_cases own : n = k
          · subst own
            constructor <;>
              simp [step, taken, asked, moved, begun, read, Except.map, place, inside]
          · constructor <;>
              simp [step, taken, asked, moved, begun, own, Except.map, place,
                List.getElem?_set_ne]

theorem stepped (w : Walks) (k : Nat) (e : Event) : w.Stepped k e := by
  cases e with
  | start => exact w.stepped_start k
  | advance walk limit => exact w.stepped_advance k walk limit

/-- What a run takes from a walk stands together in the enumeration, from the place of the walk. -/
theorem yielded_eq (w : Walks) (k : Nat) (events : List Event) :
    w.yielded k events = ((paths w.counts).drop (w.place k)).take (w.demand k events) := by
  induction events generalizing w with
  | nil => rfl
  | cons e events ih =>
      obtain ⟨counts, taken, place⟩ := w.stepped k e
      -- If the event asks for more than is left, nothing is left after it either way.
      have left : (paths w.counts).drop (w.place k + (w.taken k e).length) =
          ((paths w.counts).drop (w.place k)).drop (w.asked k e) := by
        rw [← List.drop_drop, taken, List.length_take]
        rcases Nat.le_total (w.asked k e) ((paths w.counts).drop (w.place k)).length with few | many
        · rw [Nat.min_eq_left few]
        · rw [Nat.min_eq_right many, List.drop_length, List.drop_eq_nil_of_le many]
      rw [yielded, demand, ih, counts, place, left, List.take_add, ← taken]

theorem length_places_step (held : Path.holdable w.counts = .ok ()) (e : Event) :
    (w.step e).places.length = w.places.length + if e.begins then 1 else 0 := by
  cases e with
  | start =>
      rw [step, begin, Path.walking_of_held held]
      exact List.length_append
  | advance walk limit =>
      rw [step]
      cases begun : Position.offset? w.places.length walk with
      | none =>
          obtain ⟨fault, refused⟩ := advance_error begun limit
          rw [refused]
          rfl
      | some n =>
          rw [advance_eq begun]
          cases readLimit limit with
          | error fault => rfl
          | ok count => exact List.length_set

/-- There are as many walks as have begun. -/
theorem length_places_run (held : Path.holdable w.counts = .ok ()) (events : List Event) :
    (w.run events).places.length = w.places.length + events.countP Event.begins := by
  induction events generalizing w with
  | nil => rfl
  | cons e events ih =>
      have further := ih (w := w.step e) (by rwa [(w.stepped 0 e).counts])
      rw [length_places_step held e] at further
      rw [List.countP_cons, Nat.add_comm (events.countP _), ← Nat.add_assoc]
      exact further

/-- The walk of a number goes on unless the limit cannot be read. -/
theorem exists_advance {k : Nat} (begun : k < w.places.length) {limit : Datum}
    {count : Option Nat} (read : readLimit limit = .ok count) :
    ∃ found after, w.advance k limit = .ok (found, after) := by
  have offset : Position.offset? w.places.length k = some k := by
    simp only [Position.offset?]
    rw [if_neg (show ¬(k : Int) < 0 by omega), if_pos (by omega), Int.toNat_natCast]
  rw [advance_eq offset, read]
  exact ⟨_, _, rfl⟩

theorem beginning_all (counts : List Int) :
    beginning counts .null = Path.walking counts fun _ => .ok (paths counts) := by
  rw [beginning, readLimit, Success.ok_bind, stretch_eq, List.drop_zero, Option.getD_none,
    ← length_paths, List.take_length]

end Walks

/-- Some paths are exactly those over given state counts, in order and with their digits. -/
structure Path.Enumerates (counts : List Int) (all : List Path) : Prop where
  ascending : all.Pairwise (· < ·)
  mem_iff : ∀ s, s ∈ all ↔ List.Forall₂ (fun x count => 1 ≤ x ∧ x ≤ count) s counts
  digits : ∀ rank : Nat, rank < counts.prod →
    all[rank]? = some ((List.range counts.length).map fun k => Path.digit counts rank k + 1)
  number : (all.length : Int) = counts.prod

theorem Path.enumerates_paths {counts : List Int} (nonneg : ∀ count ∈ counts, 0 ≤ count) :
    Path.Enumerates counts (paths counts) where
  ascending := pairwise_paths counts
  mem_iff _ := mem_paths
  digits _ below := getElem?_paths nonneg below
  number := by rw [length_paths, number_eq_prod nonneg]

theorem Path.holdable_iff_lt {counts : List Int} :
    Path.holdable counts = .ok () ↔ ∀ count ∈ counts, count < 2 ^ 36 := by
  have most : Path.maxHeld = 2 ^ 36 := by decide
  rw [Path.holdable_iff, most]
  refine forall₂_congr fun count _ => ?_
  omega

/-- The paths are enumerated exactly, and their number is what is counted unless it is too large.
Where the states of every node can be held, all paths are walked through, in any number of walks at
once; and each walk yields the paths from the first one on, as many as it is asked for. -/
theorem Walks.enumerates {counts : List Int} (nonneg : ∀ count ∈ counts, 0 ≤ count) :
    Path.Enumerates counts (paths counts) ∧
      Path.length? counts =
        (if counts.prod < 2 ^ 63 then .ok counts.prod.toNat else .error .lengthTooLarge) ∧
      ((∀ count ∈ counts, count < 2 ^ 36) →
        beginning counts .null = .ok (paths counts) ∧
          ∀ events : List Event, ∀ k < events.countP Event.begins, ∀ limit count,
            readLimit limit = .ok count →
              ∃ found after, (run { counts } events).advance k limit = .ok (found, after)) ∧
      ∀ events k, yielded { counts } k events =
        (paths counts).take (demand { counts } k events) := by
  refine ⟨Path.enumerates_paths nonneg, Path.length?_eq nonneg, fun few => ⟨?_, ?_⟩, ?_⟩
  · rw [beginning_all, Path.walking_of_held (Path.holdable_iff_lt.mpr few)]
  · intro events k begun limit count read
    refine exists_advance ?_ read
    rw [length_places_run (Path.holdable_iff_lt.mpr few)]
    exact begun.trans_le (Nat.le_add_left _ _)
  · intro events k
    exact yielded_eq { counts } k events

/-- Two walks through six paths: the second takes one path in the middle of the first. -/
theorem Walks.enumerates_six : (∀ count ∈ ([2, 3] : List Int), 0 ≤ count) ∧
    Path.length? [2, 3] = .ok 6 ∧ (paths [2, 3])[4]? = some [2, 2] ∧
    beginning [2, 3] .null = .ok (paths [2, 3]) ∧
    yielded { counts := [2, 3] } 0
        [.start, .advance 0 (.int 2), .start, .advance 1 (.int 1), .advance 0 (.int 2)] =
      (paths [2, 3]).take 4 := by
  have nonneg : ∀ count ∈ ([2, 3] : List Int), 0 ≤ count := by decide
  obtain ⟨exact, length, walks, runs⟩ := enumerates nonneg
  refine ⟨nonneg, length, exact.digits 4 (by decide), (walks (by decide)).1, ?_⟩
  rw [runs]
  rfl

/-- Even where there is no path, the states of every node are asked for. -/
theorem Walks.beginning_without_room : (∀ count ∈ ([0, 2 ^ 63] : List Int), 0 ≤ count) ∧
    paths [0, 2 ^ 63] = [] ∧ Path.length? [0, 2 ^ 63] = .ok 0 ∧
    beginning [0, 2 ^ 63] .null = .error .rangeTooLarge :=
  ⟨by decide, rfl, rfl, rfl⟩

end InfluenceProgram
