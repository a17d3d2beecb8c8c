import InfluenceProgram.Drawing.Basic
import InfluenceProgram.Proofs.Given
import InfluenceProgram.Proofs.ModelShape
import InfluenceProgram.Proofs.StableSort

/-!
Names of variables and rows. A name is made of words with low lines between them, and no word has a
low line in it: numbers have none, and neither has a node as it was written. So the words can be
read back from the name, and with them the node, the states, and what it is that has the name.
-/

set_option autoImplicit false

namespace InfluenceProgram

/-- A text is made of some words with low lines between them, and there are no others in it. -/
structure Spells (words : List String) (text : String) : Prop where
  nonempty : words ≠ []
  plain : ∀ word ∈ words, '_' ∉ word.toList
  joined : text = "_".intercalate words

namespace Spells

variable {words words' : List String} {text text' : String}

theorem split (spells : Spells words text) :
    List.splitOn '_' text.toList = words.map String.toList := by
  rw [spells.joined, String.toList_intercalate]
  exact List.splitOn_intercalate '_' (List.forall_mem_map.mpr spells.plain)
    (List.map_eq_nil_iff.not.mpr spells.nonempty)

/-- The words are read back from the text. -/
theorem unique (spells : Spells words text) (spells' : Spells words' text') (same : text = text') :
    words = words' := by
  have chars : words.map String.toList = words'.map String.toList := by
    rw [← spells.split, ← spells'.split, same]
  exact List.map_injective_iff.mpr (fun _ _ => String.toList_inj.mp) chars

theorem cons (word : String) (plain : '_' ∉ word.toList) (spells : Spells words text) :
    Spells (word :: words) (word ++ "_" ++ text) where
  nonempty := List.cons_ne_nil _ _
  plain := List.forall_mem_cons.mpr ⟨plain, spells.plain⟩
  joined := by rw [String.intercalate_cons_of_ne_nil spells.nonempty, spells.joined]

end Spells

theorem toString_injective : Function.Injective (toString : Int → String) := by
  intro i j same
  rw [Int.toString_eq_repr, Int.toString_eq_repr] at same
  exact Int.repr_inj.mp same

/-- The characters of a whole number are digits, after a sign if there is one. -/
theorem isDigit_of_mem_toString {j : Int} {c : Char} (member : c ∈ (toString j).toList) :
    c = '-' ∨ c.isDigit := by
  have digits : ∀ n : Nat, c ∈ n.repr.toList → c.isDigit := by
    intro n member
    rw [Nat.toList_repr] at member
    exact Nat.isDigit_of_mem_toDigits (by decide) (by decide) member
  rw [Int.toString_eq_repr, Int.repr_eq_if] at member
  split at member
  · exact Or.inr (digits _ member)
  · rw [String.toList_append, List.mem_append] at member
    rcases member with sign | digit
    · exact Or.inl (List.mem_singleton.mp sign)
    · exact Or.inr (digits _ digit)

theorem not_mem_toString {c : Char} (other : ¬(c = '-' ∨ c.isDigit)) (j : Int) :
    c ∉ (toString j).toList := fun member => other (isDigit_of_mem_toString member)

theorem toString_ne_empty (j : Int) : toString j ≠ "" := by
  intro empty
  have none : (toString j).toList = [] := by rw [empty]; rfl
  rw [Int.toString_eq_repr, Int.repr_eq_if] at none
  split at none
  · rw [Nat.toList_repr] at none
    exact Nat.toDigits_ne_nil none
  · rw [String.toList_append] at none
    exact absurd (List.append_eq_nil_iff.mp none).1 (by decide)

namespace Path

/-- The words of the name part of a path; a path without states has an empty word. -/
def words : Path → List String
  | [] => [""]
  | x :: s => (x :: s).map toString

theorem spells (s : Path) : Spells s.words s.key := by
  cases s with
  | nil =>
      refine ⟨List.cons_ne_nil _ _, fun word member => ?_, rfl⟩
      rw [List.mem_singleton.mp member]
      exact List.not_mem_nil
  | cons x s =>
      refine ⟨List.cons_ne_nil _ _, List.forall_mem_map.mpr fun y _ => ?_, rfl⟩
      exact not_mem_toString (by decide) y

theorem words_injective : Function.Injective words := by
  intro s t same
  cases s with
  | nil =>
      cases t with
      | nil => rfl
      | cons y t => exact absurd (List.cons.inj same).1.symm (toString_ne_empty y)
  | cons x s =>
      cases t with
      | nil => exact absurd (List.cons.inj same).1 (toString_ne_empty x)
      | cons y t => exact List.map_injective_iff.mpr toString_injective same

end Path

/-- The texts of some nodes have no low lines, and are different from each other. -/
structure Legible (node : Int → String) (nodes : List Int) : Prop where
  plain : ∀ j ∈ nodes, '_' ∉ (node j).toList
  distinct : ∀ i ∈ nodes, ∀ j ∈ nodes, node i = node j → i = j

theorem legible_toString (nodes : List Int) : Legible toString nodes where
  plain j _ := not_mem_toString (by decide) j
  distinct _ _ _ _ same := toString_injective same

/-- A whole number that is not real is written as an integer or as a truth value. -/
theorem Datum.int_or_bool {d : Datum} {j : Int} (whole : d.whole? = some j)
    (exact : d.isReal = false) : (∃ n, d = .int n) ∨ ∃ b, d = .bool b := by
  cases d with
  | int n => exact Or.inl ⟨n, rfl⟩
  | bool b => exact Or.inr ⟨b, rfl⟩
  | real x => cases exact
  | null | text s | list items | record fields => cases whole

/-- A truth value is no number as it is written: its word has a letter that is in both words. -/
theorem Datum.plain_bool_ne (b : Bool) (n : Int) : (bool b).plain ≠ (int n).plain := by
  intro same
  have letter : 'e' ∈ (bool b).plain.toList := by
    cases b with
    | false => decide
    | true => decide
  rw [same] at letter
  exact not_mem_toString (by decide) n letter

theorem Datum.plain_injective {d e : Datum} {i j : Int} (whole : d.whole? = some i)
    (exact : d.isReal = false) (whole' : e.whole? = some j) (exact' : e.isReal = false)
    (same : d.plain = e.plain) : d = e := by
  rcases int_or_bool whole exact with ⟨m, rfl⟩ | ⟨a, rfl⟩
  · rcases int_or_bool whole' exact' with ⟨n, rfl⟩ | ⟨b, rfl⟩
    · rw [toString_injective same]
    · exact absurd same.symm (plain_bool_ne b m)
  · rcases int_or_bool whole' exact' with ⟨n, rfl⟩ | ⟨b, rfl⟩
    · exact absurd same (plain_bool_ne a n)
    · have words : ∀ a b : Bool, (bool a).plain = (bool b).plain → a = b := by decide
      rw [words a b same]

namespace Drawing

variable {chance decision value arcs counts : Datum} {w : Drawing}

/-- A node is written as a number of its value. -/
theorem whole?_label (created : create chance decision value arcs counts = .ok w) (j : Int) :
    (w.label j).whole? = some j := by
  obtain ⟨chance, _, created⟩ := Success.bind_iff.mp created
  obtain ⟨decision, _, created⟩ := Success.bind_iff.mp created
  obtain ⟨value, _, created⟩ := Success.bind_iff.mp created
  obtain ⟨items, _, created⟩ := Success.bind_iff.mp created
  obtain ⟨arcs, _, created⟩ := Success.bind_iff.mp created
  obtain ⟨_, _, created⟩ := Success.bind_iff.mp created
  dsimp only at created
  split at created
  · cases created
  · obtain ⟨items, _, created⟩ := Success.bind_iff.mp created
    obtain ⟨diagram, _, same⟩ := Success.bind_iff.mp created
    cases Except.ok.inj same
    rw [label]
    -- Whatever is kept of how a node was written was kept under its value.
    cases found : Keyed.get? j _ with
    | none => exact Datum.whole?_int j
    | some node =>
        obtain ⟨written, _, entry⟩ := List.mem_filterMap.mp (Keyed.mem_of_get? found)
        obtain ⟨k, whole, pair⟩ := Option.map_eq_some_iff.mp entry
        cases pair
        exact whole

theorem isReal_label (checked : w.diagram.decision.forM w.checkPosition = .ok ()) :
    ∀ j ∈ w.diagram.decision, (w.label j).isReal = false := by
  intro j member
  have fine := Success.forM_iff.mp checked j member
  rw [checkPosition] at fine
  split at fine
  · cases fine
  · rename_i exact
    exact Bool.eq_false_iff.mpr exact

/-- Decision nodes that may stand in a decision model are told apart by how they are written. -/
theorem legible_nodeName (created : create chance decision value arcs counts = .ok w)
    (checked : w.diagram.decision.forM w.checkPosition = .ok ()) :
    Legible w.nodeName w.diagram.decision where
  plain j member := by
    rw [nodeName]
    rcases Datum.int_or_bool (whole?_label created j) (isReal_label checked j member) with
      ⟨n, same⟩ | ⟨b, same⟩
    · rw [same]
      exact not_mem_toString (by decide) n
    · rw [same]
      cases b with
      | false => decide
      | true => decide
  distinct i member j member' same := by
    have labels := Datum.plain_injective (whole?_label created i) (isReal_label checked i member)
      (whole?_label created j) (isReal_label checked j member') same
    have values := whole?_label created i
    rw [labels, whole?_label created j] at values
    exact (Option.some.inj values).symm

/-- Two decisions, the node of the first of them given as a truth value. -/
def flag : Drawing where
  diagram := {
    toOutline := Outline.ofLists [] [1, 2] [] []
    counts := [2, 3]
    layered := (@Outline.layered_of_defect [] [1, 2] [] [] 2 rfl).1
    counts_length := rfl
    counts_pos := by decide }
  written := [(1, .bool true), (2, .int 2)]

theorem flag_drawn : create (.list []) (.list [.bool true, .int 2]) (.list []) (.list [])
    (.list [.int 2, .int 3]) = .ok flag := by
  have sorted : Sorting.sort Datum.before ([.bool true, .int 2].map id) = _ :=
    Sorting.sort_map id (fun d => d.whole?.getD 0) (by decide)
  rw [List.mergeSort_of_pairwise (by decide)] at sorted
  have read : readNodes (.list [.bool true, .int 2]) = .ok [.bool true, .int 2] := sorted
  rw [create, read]
  rfl

end Drawing

namespace Variable

variable {node : Int → String} {nodes : List Int} {v w : Variable}

/-- A variable belongs to a path or to a choice of one of some nodes. -/
def Within (nodes : List Int) : Variable → Prop
  | path _ => True
  | choice j _ => j ∈ nodes

/-- The words of the name of a variable. -/
def words (node : Int → String) : Variable → List String
  | path s => "pi" :: s.words
  | choice j key => ("z" ++ node j) :: key.words

theorem spells (legible : Legible node nodes) (within : v.Within nodes) :
    Spells (v.words node) (v.nameBy node) := by
  cases v with
  | path s => exact s.spells.cons "pi" (by decide)
  | choice j key =>
      refine key.spells.cons _ ?_
      rw [String.toList_append, List.mem_append]
      rintro (letter | low)
      · exact absurd letter (by decide)
      · exact legible.plain j within low

/-- Different variables have different names. -/
theorem nameBy_injective (legible : Legible node nodes) (own : v.Within nodes)
    (other : w.Within nodes) (same : v.nameBy node = w.nameBy node) : v = w := by
  have words := (spells legible own).unique (spells legible other) same
  have apart : ∀ j, "pi" ≠ "z" ++ node j := by
    intro j same
    have first := congrArg (fun text => text.toList.head?) same
    rw [String.toList_append] at first
    cases first
  cases v with
  | path s =>
      cases w with
      | path t => rw [Path.words_injective (List.cons.inj words).2]
      | choice j key => exact absurd (List.cons.inj words).1 (apart j)
  | choice i key =>
      cases w with
      | path t => exact absurd (List.cons.inj words).1.symm (apart i)
      | choice j key' =>
          obtain ⟨head, rest⟩ := List.cons.inj words
          have node := legible.distinct i own j other ((String.append_right_inj "z").mp head)
          rw [node, Path.words_injective rest]

end Variable

/-- No two variables and no two rows of a program have the same name. -/
def Program.Unambiguous {κ α : Type} (q : Program κ α) : Prop :=
  (q.columns.map (·.name)).Nodup ∧ (q.rows.map (·.name)).Nodup

namespace Diagram

variable {α : Type} [Scalar α] {d : Diagram} {node : Int → String}

theorem contextRow_spells (legible : Legible node d.decision) {j : Int} (decision : j ∈ d.decision)
    (c : Path) : Spells ("local" :: "strategy" :: node j :: c.words)
      (d.contextRow (α := α) node j c).name := by
  have spelled := ((c.spells.cons _ (legible.plain j decision)).cons "strategy"
    (by decide)).cons "local" (by decide)
  rw [contextRow_name]
  simp only [← String.append_assoc] at spelled
  exact spelled

theorem pathRow_spells (legible : Legible node d.decision) {j : Int} (decision : j ∈ d.decision)
    (s : Path) : Spells ("consistency" :: node j :: s.words)
      (d.pathRow (α := α) node s j).name := by
  have spelled := (s.spells.cons _ (legible.plain j decision)).cons "consistency" (by decide)
  rw [pathRow_name]
  simp only [← String.append_assoc] at spelled
  exact spelled

theorem nodup_contextRows (legible : Legible node d.decision) :
    ((d.contextRows (α := α) node).map (·.name)).Nodup := by
  rw [contextRows, List.map_flatMap]
  simp only [List.map_map]
  refine nodup_flatMap_map d.nodup_decision (fun j _ => nodup_paths _) ?_
  intro i decision j decision' b _ c _ same
  have words := (contextRow_spells (α := α) legible decision b).unique
    (contextRow_spells legible decision' c) same
  simp only [List.cons.injEq, true_and] at words
  exact ⟨legible.distinct i decision j decision' words.1, Path.words_injective words.2⟩

theorem nodup_pathRows (legible : Legible node d.decision) :
    ((d.pathRows (α := α) node).map (·.name)).Nodup := by
  rw [pathRows, List.map_flatMap]
  simp only [List.map_map]
  refine nodup_flatMap_map (nodup_paths _) (fun s _ => d.nodup_decision) ?_
  intro s _ t _ i decision j decision' same
  have words := (pathRow_spells (α := α) legible decision s).unique
    (pathRow_spells legible decision' t) same
  simp only [List.cons.injEq, true_and] at words
  exact ⟨Path.words_injective words.2, legible.distinct i decision j decision' words.1⟩

theorem within_choices {v : Variable} (member : v ∈ d.choices) : v.Within d.decision := by
  obtain ⟨j, decision, keys⟩ := List.mem_flatMap.mp member
  obtain ⟨key, _, rfl⟩ := List.mem_map.mp keys
  exact decision

end Diagram

namespace Problem

variable {α : Type} [Scalar α] {p : Problem α} {weight gain : Path → α} {node : Int → String}
  {specs : Specs} {name : String}

theorem names_emittedWith : (p.emittedWith weight gain node specs name).program.columns.map
    (·.name) = (p.emittedWith weight gain node specs name).program.keys.map (·.nameBy node) := by
  simp only [Program.keys, emittedWith, List.map_append, List.map_map, List.map_flatMap]
  rfl

theorem emittedWith_unambiguous (legible : Legible node p.diagram.decision) :
    (p.emittedWith weight gain node specs name).program.Unambiguous := by
  constructor
  · have within : ∀ v ∈ (p.emittedWith weight gain node specs name).program.keys,
        v.Within p.diagram.decision := by
      intro v member
      rw [keys_emittedWith, List.mem_append] at member
      rcases member with path | choice
      · obtain ⟨s, _, rfl⟩ := List.mem_map.mp path
        exact True.intro
      · exact Diagram.within_choices choice
    rw [names_emittedWith]
    exact List.Nodup.map_on (fun v own w other =>
      Variable.nameBy_injective legible (within v own) (within w other))
      emittedWith_shaped.distinct
  · have rows : (p.emittedWith weight gain node specs name).program.rows =
        p.diagram.contextRows node ++ p.diagram.pathRows node := rfl
    rw [rows, List.map_append, List.nodup_append]
    refine ⟨Diagram.nodup_contextRows legible, Diagram.nodup_pathRows legible, ?_⟩
    intro text context text' path same
    obtain ⟨_, member, rfl⟩ := List.mem_map.mp context
    obtain ⟨_, member', rfl⟩ := List.mem_map.mp path
    obtain ⟨i, decision, c, _, rfl⟩ := Diagram.mem_contextRows.mp member
    obtain ⟨s, _, j, decision', rfl⟩ := Diagram.mem_pathRows.mp member'
    have words := (Diagram.contextRow_spells legible decision c).unique
      (Diagram.pathRow_spells legible decision' s) same
    exact absurd (List.cons.inj words).1 (by decide)

/-- The decision model of accepted tables tells its variables and its rows apart by their names,
whether nodes are written as integers or as they were given. -/
theorem names_unambiguous {d : Diagram} {X Y : Keyed Int (Supplied α)}
    (created : Problem.create d X Y = .ok p) (specs : Specs) (name : String) :
    (∃ f, Formulation.build specs p name = .ok f ∧ f.program.Unambiguous) ∧
      ∀ chance decision value arcs counts w,
        Drawing.create chance decision value arcs counts = .ok w → w.diagram = d →
        d.decision.forM w.checkPosition = .ok () →
          ∃ f, Formulation.buildBy w.nodeName specs p name = .ok f ∧ f.program.Unambiguous := by
  constructor
  · obtain ⟨rfl, weight, gain, built⟩ := exists_buildBy created toString specs name
    exact ⟨_, built, emittedWith_unambiguous (legible_toString _)⟩
  · rintro chance decision value arcs counts w drawn rfl checked
    obtain ⟨same, weight, gain, built⟩ := exists_buildBy created w.nodeName specs name
    refine ⟨_, built, emittedWith_unambiguous ?_⟩
    rw [same]
    exact Drawing.legible_nodeName drawn checked

/-- A node that is written as a number or as a word makes good names beside another one. -/
theorem flag_names : ∃ p : Problem Rat, Problem.create Drawing.flag.diagram [] [] = .ok p ∧
    Drawing.flag.nodeName 1 = "True" ∧ Drawing.flag.nodeName 2 = "2" ∧
    (∃ f, Formulation.build {} p "flag" = .ok f ∧ f.program.Unambiguous) ∧
    ∃ f, Formulation.buildBy Drawing.flag.nodeName {} p "flag" = .ok f ∧
      f.program.Unambiguous := by
  have created : Problem.create Drawing.flag.diagram [] [] =
      .ok (⟨Drawing.flag.diagram, [], []⟩ : Problem Rat) := rfl
  obtain ⟨plainly, drawn⟩ := names_unambiguous created {} "flag"
  exact ⟨_, created, rfl, rfl, plainly, drawn _ _ _ _ _ _ Drawing.flag_drawn rfl rfl⟩

end Problem

end InfluenceProgram
