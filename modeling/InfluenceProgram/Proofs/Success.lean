import Mathlib

/-!
Computations over lists that do not fail. Where every step has a result, so has the whole, and it
is the pure list operation on those results.
-/

set_option autoImplicit false

namespace InfluenceProgram.Success

variable {ε α β : Type}

@[simp] theorem ok_bind (a : α) (next : α → Except ε β) : (Except.ok a >>= next) = next a := rfl

theorem bind_iff {first : Except ε α} {next : α → Except ε β} {b : β} :
    (first >>= next) = .ok b ↔ ∃ a, first = .ok a ∧ next a = .ok b := by
  cases first with
  | error fault => simp [bind, Except.bind]
  | ok a => simp [bind, Except.bind]

/-- Outcomes with the same image are the same if no two results have the same image. -/
theorem map_injective {f : α → β} (injective : Function.Injective f) {first second : Except ε α}
    (same : first.map f = second.map f) : first = second := by
  cases first with
  | error fault =>
      cases second with
      | error other =>
          cases same
          rfl
      | ok b => cases same
  | ok a =>
      cases second with
      | error other => cases same
      | ok b => rw [injective (Except.ok.inj same)]

theorem mapM_iff {f : α → Except ε β} {xs : List α} {ys : List β} :
    xs.mapM f = .ok ys ↔ List.Forall₂ (fun x y => f x = .ok y) xs ys := by
  induction xs generalizing ys with
  | nil =>
      rw [List.mapM_nil, List.forall₂_nil_left_iff]
      exact ⟨fun same => (Except.ok.inj same).symm, fun same => by rw [same]; rfl⟩
  | cons x xs ih =>
      rw [List.mapM_cons, bind_iff, List.forall₂_cons_left_iff]
      constructor
      · rintro ⟨y, head, rest⟩
        obtain ⟨tail, tailOk, same⟩ := bind_iff.mp rest
        exact ⟨y, tail, head, ih.mp tailOk, (Except.ok.inj same).symm⟩
      · rintro ⟨y, tail, head, tailOk, rfl⟩
        exact ⟨y, head, bind_iff.mpr ⟨tail, ih.mpr tailOk, rfl⟩⟩

theorem mapM_eq {f : α → Except ε β} {g : α → β} {xs : List α}
    (each : ∀ x ∈ xs, f x = .ok (g x)) : xs.mapM f = .ok (xs.map g) := by
  rw [mapM_iff, List.forall₂_map_right_iff, List.forall₂_same]
  exact each

/-- Where every step has a result, there is a list of them. -/
theorem exists_mapM {f : α → Except ε β} {xs : List α}
    (each : ∀ x ∈ xs, ∃ y, f x = .ok y) : ∃ ys, xs.mapM f = .ok ys := by
  induction xs with
  | nil => exact ⟨[], rfl⟩
  | cons x xs ih =>
      obtain ⟨⟨y, head⟩, rest⟩ := List.forall_mem_cons.mp each
      obtain ⟨ys, tail⟩ := ih rest
      refine ⟨y :: ys, ?_⟩
      rw [List.mapM_cons, head, ok_bind, tail]
      rfl

/-- Where there is a list of results, every step has one. -/
theorem exists_of_mapM {f : α → Except ε β} {xs : List α} {ys : List β}
    (traversed : xs.mapM f = .ok ys) : ∀ x ∈ xs, ∃ y, f x = .ok y := by
  induction mapM_iff.mp traversed with
  | nil => simp
  | cons head tail ih =>
      rw [List.forall_mem_cons]
      exact ⟨⟨_, head⟩, ih (mapM_iff.mpr tail)⟩

theorem mapM_congr {m : Type → Type} [Monad m] [LawfulMonad m] {f g : α → m β} {xs : List α}
    (same : ∀ x ∈ xs, f x = g x) : xs.mapM f = xs.mapM g := by
  induction xs with
  | nil => rfl
  | cons x xs ih =>
      obtain ⟨first, rest⟩ := List.forall_mem_cons.mp same
      rw [List.mapM_cons, List.mapM_cons, first, ih rest]

/-- What is done with each result can be done with the list of them. -/
theorem mapM_map {γ : Type} {f : α → Except ε β} {g : β → γ} {xs : List α} :
    (xs.mapM fun x => (f x).map g) = (xs.mapM f).map (List.map g) := by
  induction xs with
  | nil => rfl
  | cons x xs ih =>
      rw [List.mapM_cons, List.mapM_cons, ih]
      cases f x with
      | error fault => rfl
      | ok y => cases xs.mapM f <;> rfl

theorem forM_iff {f : α → Except ε Unit} {xs : List α} :
    xs.forM f = .ok () ↔ ∀ x ∈ xs, f x = .ok () := by
  induction xs with
  | nil => simp [pure, Except.pure]
  | cons x xs ih =>
      rw [List.forM_eq_forM, List.forM_cons, bind_iff, List.forall_mem_cons, ← ih]
      exact ⟨fun ⟨_, head, tail⟩ => ⟨head, tail⟩, fun ⟨head, tail⟩ => ⟨(), head, tail⟩⟩

theorem foldlM_eq {f : β → α → Except ε β} {g : β → α → β} {xs : List α}
    (each : ∀ b, ∀ x ∈ xs, f b x = .ok (g b x)) (b : β) :
    xs.foldlM f b = .ok (xs.foldl g b) := by
  induction xs generalizing b with
  | nil => rfl
  | cons x xs ih =>
      rw [List.foldlM_cons, each b x List.mem_cons_self]
      exact ih (fun b y member => each b y (List.mem_cons_of_mem _ member)) _

/-- Where every step has a result, whatever it starts from, so has the whole. -/
theorem exists_foldlM {f : β → α → Except ε β} {xs : List α}
    (each : ∀ b, ∀ x ∈ xs, ∃ y, f b x = .ok y) (b : β) : ∃ y, xs.foldlM f b = .ok y := by
  induction xs generalizing b with
  | nil => exact ⟨b, rfl⟩
  | cons x xs ih =>
      obtain ⟨y, head⟩ := each b x List.mem_cons_self
      rw [List.foldlM_cons, head]
      exact ih (fun b y member => each b y (List.mem_cons_of_mem _ member)) y

theorem allM_eq {f : α → Except ε Bool} {g : α → Bool} {xs : List α}
    (each : ∀ x ∈ xs, f x = .ok (g x)) : xs.allM f = .ok (xs.all g) := by
  induction xs with
  | nil => rfl
  | cons x xs ih =>
      have rest := ih fun y member => each y (List.mem_cons_of_mem _ member)
      rw [List.allM, each x List.mem_cons_self, List.all_cons]
      cases g x with
      | false => rfl
      | true => exact rest

private theorem filterAuxM_eq {f : α → Except ε Bool} {g : α → Bool} {xs : List α}
    (each : ∀ x ∈ xs, f x = .ok (g x)) (kept : List α) :
    xs.filterAuxM f kept = .ok ((xs.filter g).reverse ++ kept) := by
  induction xs generalizing kept with
  | nil => rfl
  | cons x xs ih =>
      have rest := ih fun y member => each y (List.mem_cons_of_mem _ member)
      rw [List.filterAuxM, each x List.mem_cons_self]
      change xs.filterAuxM f (bif g x then x :: kept else kept) = _
      cases taken : g x with
      | false => rw [cond_false, rest kept, List.filter_cons_of_neg (by simp [taken])]
      | true =>
          rw [cond_true, rest (x :: kept), List.filter_cons_of_pos taken, List.reverse_cons,
            List.append_assoc, List.singleton_append]

theorem filterM_eq {f : α → Except ε Bool} {g : α → Bool} {xs : List α}
    (each : ∀ x ∈ xs, f x = .ok (g x)) : xs.filterM f = .ok (xs.filter g) := by
  rw [List.filterM, filterAuxM_eq each [], List.append_nil]
  change Except.ok (xs.filter g).reverse.reverse = _
  rw [List.reverse_reverse]

end InfluenceProgram.Success
